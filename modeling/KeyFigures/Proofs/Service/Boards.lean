/-
  KeyFigures/Proofs/Service/Boards.lean
  =====================================
  **What is shown is the result of the newest request.**

  Subscriptions that share a gate make requests, and the results come in any
  order.  `Board.Event` lists what can happen and `Board.step` says what it
  leads to.  What others can tell of a run is noted: the tickets that are
  issued, the channels that are closed and the requests that end with a result.

  `Board.NewestWins` says how the notes and the board belong together, and
  `newest_wins` that they do after any run.  One invariant carries it
  (`Board.Inv`): a request under way holds the latest ticket of its channel
  exactly if nothing has superseded it since its ticket was issued.
-/
import KeyFigures.Service.Gate
import KeyFigures.Proofs.Log.Steady
import KeyFigures.Proofs.Cache.Operations

namespace KeyFigures

/-! ### What a gate knows of a channel -/

namespace Gate

/-- A channel goes by every name that counts as the same. -/
theorem latest?_congr (g : Gate) {a b : Value} (h : a.same b = true) :
    g.latest? a = g.latest? b := by
  simp only [latest?, Value.same_congr_right h]

theorem latest?_issue (g : Gate) (channel other : Value) :
    (g.issue channel).latest? other =
      if channel.same other then some g.nextTicket else g.latest? other := by
  cases h : channel.same other with
  | true =>
    rw [← latest?_congr _ h, latest?_issue_self]
    rfl
  | false =>
    rw [latest?_issue_of_not_same g ((Value.same_comm other channel).trans h)]
    rfl

theorem latest?_close (g : Gate) (channel other : Value) :
    (g.close channel).latest? other = if channel.same other then none else g.latest? other := by
  cases h : channel.same other with
  | true =>
    rw [← latest?_congr _ h, latest?_close_self]
    rfl
  | false =>
    rw [latest?_close_of_not_same g ((Value.same_comm other channel).trans h)]
    rfl

/-- A ticket is issued, or it is used up for nothing. -/
theorem take_cases (g : Gate) (channel : Value) :
    g.take channel = (.ok g.nextTicket, g.issue channel) ∨
    ∃ failure, g.take channel = (.error failure, { g with issued := g.nextTicket }) := by
  unfold take
  split
  · exact .inl rfl
  · exact .inr ⟨_, rfl⟩

end Gate

/-! ### Notes -/

/-- The end of a request whose computation returned a result. -/
structure Finish (α : Type) where
  request : Submission
  value : α
  published : Bool

/-- What others can tell of a run. -/
inductive Note (α : Type) where
  | issued (channel : Value) (ticket : Nat)
  | closed (channel : Value)
  | finished (f : Finish α)

namespace Note

variable {α : Type}

/-- Whether the tickets that a channel was issued before are out of date. -/
def supersedes (channel : Value) : Note α → Bool
  | .issued c _ | .closed c => c.same channel
  | .finished _ => false

def ticket? : Note α → Option Nat
  | .issued _ ticket => some ticket
  | .closed _ | .finished _ => none

def finish? : Note α → Option (Finish α)
  | .finished f => some f
  | .issued .. | .closed _ => none

end Note

section Notes

variable {α : Type}

/-- The tickets that were issued, on whatever channel. -/
def ticketsOf (notes : List (Note α)) : List Nat := notes.filterMap Note.ticket?

/-- The requests that ended with a result. -/
def finishesOf (notes : List (Note α)) : List (Finish α) := notes.filterMap Note.finish?

/-- The results that were published of the requests that `p` selects. -/
def publishedOf (p : Submission → Bool) (notes : List (Note α)) : List (Finish α) :=
  (finishesOf notes).filter fun f => f.published && p f.request

/-- The results that were discarded of the requests that `p` selects. -/
def discardedOf (p : Submission → Bool) (notes : List (Note α)) : List (Finish α) :=
  (finishesOf notes).filter fun f => !f.published && p f.request

/-- The notes tell of the ticket of a request, and the request is current
    exactly if nothing has superseded it since. -/
def IssuedIn (notes : List (Note α)) (s : Submission) (current : Bool) : Prop :=
  ∃ earlier since, notes = earlier ++ .issued s.channel s.ticket :: since ∧
    (current = true ↔ ∀ x ∈ since, x.supersedes s.channel = false)

theorem finishesOf_append (notes more : List (Note α)) :
    finishesOf (notes ++ more) = finishesOf notes ++ finishesOf more :=
  List.filterMap_append ..

theorem ticketsOf_append (notes more : List (Note α)) :
    ticketsOf (notes ++ more) = ticketsOf notes ++ ticketsOf more :=
  List.filterMap_append ..

/-- Whatever came in is published or discarded. -/
theorem length_published_add_discarded (p : Submission → Bool) (notes : List (Note α)) :
    (publishedOf p notes).length + (discardedOf p notes).length =
      (finishesOf notes).countP (p ·.request) := by
  simp only [publishedOf, discardedOf]
  induction finishesOf notes with
  | nil => rfl
  | cons f rest ih =>
    cases hf : f.published <;> cases hp : p f.request <;> simp [hf, hp] <;> omega

variable {notes : List (Note α)} {s : Submission} {current : Bool}

theorem IssuedIn.mem (h : IssuedIn notes s current) : .issued s.channel s.ticket ∈ notes := by
  obtain ⟨earlier, since, rfl, -⟩ := h
  exact List.mem_append_right _ List.mem_cons_self

theorem ticket_mem {channel : Value} {ticket : Nat} (h : .issued channel ticket ∈ notes) :
    ticket ∈ ticketsOf notes :=
  List.mem_filterMap.mpr ⟨_, h, rfl⟩

/-- A note more decides with the others whether a request is current. -/
theorem IssuedIn.append (h : IssuedIn notes s current) {x : Note α} {current' : Bool}
    (hcurrent : current' = (current && !x.supersedes s.channel)) :
    IssuedIn (notes ++ [x]) s current' := by
  obtain ⟨earlier, since, rfl, hiff⟩ := h
  refine ⟨earlier, since ++ [x], by simp, ?_⟩
  rw [hcurrent]
  simp [hiff, or_imp, forall_and]

/-- The tickets of a channel before that of a current request are lower. -/
theorem IssuedIn.newest (h : IssuedIn notes s true) (htickets : (ticketsOf notes).Pairwise (· < ·))
    {channel : Value} {ticket : Nat} (hmem : .issued channel ticket ∈ notes)
    (hchannel : channel.same s.channel = true) : ticket ≤ s.ticket := by
  obtain ⟨earlier, since, rfl, hiff⟩ := h
  rcases List.mem_append.mp hmem with hmem | hmem
  · rw [ticketsOf_append] at htickets
    have hlt := (List.pairwise_append.mp htickets).2.2 ticket (ticket_mem hmem) s.ticket
      (ticket_mem List.mem_cons_self)
    exact Nat.le_of_lt hlt
  · rcases List.mem_cons.mp hmem with heq | hmem
    · cases heq
      exact Nat.le_refl _
    · have hnot := hiff.mp rfl _ hmem
      rw [Note.supersedes, hchannel] at hnot
      cases hnot

end Notes

/-! ### Runs -/

namespace Board

variable {α : Type}

/-- What can happen to a board. -/
inductive Event (α : Type) where
  /-- A caller makes a request for a subscription. -/
  | submit (caller widget : String)
  /-- The computation of the request with that ticket returns a result. -/
  | finish (ticket : Nat) (v : α)
  /-- The computation raises, or its caller gives up. -/
  | fail (ticket : Nat)
  /-- A ticket is taken without a subscription. -/
  | issue (channel : Value)
  | close (channel : Value)
  | closeWidget (widget : String)

/-- The request under way that has a ticket. -/
def underWay? (b : Board α) (ticket : Nat) : Option Submission :=
  b.pending.find? (·.ticket == ticket)

/-- What an event leads to, and what there is to note. -/
def step (b : Board α) : Event α → Board α × List (Note α)
  | .submit caller widget =>
    match b.widget? widget with
    | none => (b, [])
    | some w =>
      match b.gate.take w.channel with
      | (.ok ticket, _) => (b.submit caller widget, [.issued w.channel ticket])
      | (.error _, gate) => ({ b with gate := gate }, [])
  | .finish ticket v =>
    match b.underWay? ticket with
    | none => (b, [])
    | some s => (b.arrive s v, [.finished ⟨s, v, b.gate.isCurrent s.channel s.ticket⟩])
  | .fail ticket =>
    match b.underWay? ticket with
    | none => (b, [])
    | some s => (b.drop s, [])
  | .issue channel =>
    match b.gate.take channel with
    | (.ok ticket, gate) => ({ b with gate := gate }, [.issued channel ticket])
    | (.error _, gate) => ({ b with gate := gate }, [])
  | .close channel => ({ b with gate := b.gate.close channel }, [.closed channel])
  | .closeWidget widget =>
    match b.widget? widget with
    | none => (b, [])
    | some w => (b.close widget, [.closed w.channel])

/-- A run: one event after another. -/
def run (b : Board α) : List (Event α) → Board α × List (Note α)
  | [] => (b, [])
  | e :: rest =>
    let (b, notes) := b.step e
    let (b, more) := b.run rest
    (b, notes ++ more)

/-- A new gate with subscriptions of the given names and channels. -/
def start (widgets : List (String × Value)) : Board α :=
  { widgets := widgets.map fun w => (w.1, { channel := w.2 }) }

/-- What a subscription shows and counts is what the notes say of its
    requests. -/
structure Shows (name : String) (w : Subscription α) (notes : List (Note α)) : Prop where
  latest : w.latest = ((publishedOf (·.widget == name) notes).getLast?).map (·.value)
  published : w.published = (publishedOf (·.widget == name) notes).length
  discarded : w.discarded = (discardedOf (·.widget == name) notes).length

/-! ### What every run keeps -/

/-- What holds of a board and of the notes on its run at any time; `channelOf`
    knows the channels of the subscriptions. -/
structure Inv (channelOf : String → Option Value) (b : Board α) (notes : List (Note α)) : Prop where
  channels : ∀ name, (b.widget? name).map (·.channel) = channelOf name
  issued_le : ∀ ticket ∈ ticketsOf notes, ticket ≤ b.gate.issued
  tickets : (ticketsOf notes).Pairwise (· < ·)
  pending : ∀ s ∈ b.pending, IssuedIn notes s (b.gate.isCurrent s.channel s.ticket)
  pending_channel : ∀ s ∈ b.pending, channelOf s.widget = some s.channel
  finished : ∀ before f after, notes = before ++ .finished f :: after →
    IssuedIn before f.request f.published
  finished_channel : ∀ f ∈ finishesOf notes, channelOf f.request.widget = some f.request.channel
  /-- No request ends twice. -/
  once : ((finishesOf notes).map (·.request.ticket) ++ b.pending.map (·.ticket)).Nodup
  increase : ∀ channel,
    ((publishedOf (·.channel.same channel) notes).map (·.request.ticket)).Pairwise (· < ·)
  shows : ∀ p ∈ b.widgets, Shows p.1 p.2 notes

variable {channelOf : String → Option Value} {b : Board α} {notes : List (Note α)}

theorem Inv.pending_le (h : b.Inv channelOf notes) {s : Submission} (hs : s ∈ b.pending) :
    s.ticket ≤ b.gate.issued :=
  h.issued_le _ (ticket_mem (h.pending s hs).mem)

theorem Inv.finish_issued (h : b.Inv channelOf notes) {f : Finish α} (hf : f ∈ finishesOf notes) :
    .issued f.request.channel f.request.ticket ∈ notes := by
  obtain ⟨x, hx, hfinish⟩ := List.mem_filterMap.mp hf
  obtain ⟨before, after, rfl⟩ := List.append_of_mem hx
  cases x with
  | issued channel ticket => cases hfinish
  | closed channel => cases hfinish
  | finished g =>
    obtain rfl := Option.some.inj hfinish
    exact List.mem_append_left _ (h.finished before g after rfl).mem

/-- The ticket of a request under way names it. -/
theorem Inv.underWay?_eq (h : b.Inv channelOf notes) {s : Submission} (hs : s ∈ b.pending) :
    b.underWay? s.ticket = some s :=
  find?_eq_some_of_nodup (List.nodup_append.mp h.once).2.1 hs

theorem mem_of_underWay? {ticket : Nat} {s : Submission} (h : b.underWay? ticket = some s) :
    s ∈ b.pending :=
  List.mem_of_find?_eq_some h

theorem start_inv (widgets : List (String × Value)) :
    Inv (fun name => ((start widgets : Board α).widget? name).map (·.channel))
      (start widgets : Board α) [] := by
  constructor
  case channels => exact fun name => rfl
  case finished =>
    intro before f after h
    exact absurd h.symm (by simp)
  case shows =>
    intro p hp
    obtain ⟨w, -, rfl⟩ := List.mem_map.mp hp
    exact ⟨rfl, rfl, rfl⟩
  all_goals simp [start, ticketsOf, finishesOf, publishedOf]

/-! ### Tickets and closing -/

/-- A note that is no end of a request leaves the ends of requests alone. -/
theorem split_of_append {x : Note α} {f : Finish α} {before after : List (Note α)}
    (h : notes ++ [x] = before ++ .finished f :: after) :
    (∃ rest, notes = before ++ .finished f :: rest) ∨ (notes = before ∧ x = .finished f) := by
  rcases List.eq_nil_or_concat after with rfl | ⟨rest, y, rfl⟩
  · obtain ⟨hnotes, hx⟩ := List.append_inj' h rfl
    exact .inr ⟨hnotes, List.singleton_inj.mp hx⟩
  · refine .inl ⟨rest, ?_⟩
    have heq : notes ++ [x] = (before ++ .finished f :: rest) ++ [y] := by simpa using h
    exact (List.append_inj' heq rfl).1

/-- The gate and the notes move on together. -/
theorem Inv.move (h : b.Inv channelOf notes) {g : Gate} {x : Note α} (hfinish : x.finish? = none)
    (hissued : b.gate.issued ≤ g.issued)
    (hticket : ∀ ticket ∈ x.ticket?, b.gate.issued < ticket ∧ ticket ≤ g.issued)
    (hcurrent : ∀ s ∈ b.pending, g.isCurrent s.channel s.ticket =
      (b.gate.isCurrent s.channel s.ticket && !x.supersedes s.channel)) :
    Inv channelOf { b with gate := g } (notes ++ [x]) := by
  have hfinishes : finishesOf (notes ++ [x]) = finishesOf notes := by
    simp [finishesOf, hfinish]
  have htickets : ticketsOf (notes ++ [x]) = ticketsOf notes ++ x.ticket?.toList := by
    cases hx : x.ticket? <;> simp [ticketsOf, hx]
  constructor
  case channels => exact h.channels
  case issued_le =>
    rw [htickets]
    intro ticket hmem
    rcases List.mem_append.mp hmem with hmem | hmem
    · exact Nat.le_trans (h.issued_le ticket hmem) hissued
    · exact (hticket ticket (Option.mem_toList.mp hmem)).2
  case tickets =>
    rw [htickets, List.pairwise_append]
    refine ⟨h.tickets, ?_, ?_⟩
    · cases x.ticket? <;> simp
    · intro t ht u hu
      exact Nat.lt_of_le_of_lt (h.issued_le t ht) (hticket u (Option.mem_toList.mp hu)).1
  case pending => exact fun s hs => (h.pending s hs).append (hcurrent s hs)
  case pending_channel => exact h.pending_channel
  case finished =>
    intro before f after heq
    rcases split_of_append heq with ⟨rest, hrest⟩ | ⟨-, rfl⟩
    · exact h.finished before f rest hrest
    · cases hfinish
  case finished_channel =>
    rw [hfinishes]
    exact h.finished_channel
  case once =>
    rw [hfinishes]
    exact h.once
  case increase =>
    simp only [publishedOf, hfinishes]
    exact h.increase
  case shows =>
    intro p hp
    have hshows := h.shows p hp
    constructor
    · simpa only [publishedOf, hfinishes] using hshows.latest
    · simpa only [publishedOf, hfinishes] using hshows.published
    · simpa only [discardedOf, hfinishes] using hshows.discarded

theorem Inv.issue (h : b.Inv channelOf notes) (channel : Value) :
    Inv channelOf { b with gate := b.gate.issue channel }
      (notes ++ [.issued channel b.gate.nextTicket]) := by
  refine h.move rfl (Nat.le_succ _) ?_ ?_
  · rintro ticket ⟨⟩
    exact ⟨Nat.lt_succ_self _, Nat.le_refl _⟩
  · intro s hs
    have hne : b.gate.nextTicket ≠ s.ticket :=
      Nat.ne_of_gt (Nat.lt_succ_of_le (h.pending_le hs))
    cases hsame : channel.same s.channel <;>
      simp [Gate.isCurrent, Gate.latest?_issue, Note.supersedes, hsame, hne]

theorem Inv.close (h : b.Inv channelOf notes) (channel : Value) :
    Inv channelOf { b with gate := b.gate.close channel } (notes ++ [.closed channel]) := by
  refine h.move rfl (Nat.le_refl _) nofun ?_
  intro s hs
  cases hsame : channel.same s.channel <;>
    simp [Gate.isCurrent, Gate.latest?_close, Note.supersedes, hsame]

/-- A ticket may be used up for nothing. -/
theorem Inv.waste (h : b.Inv channelOf notes) :
    Inv channelOf { b with gate := { b.gate with issued := b.gate.nextTicket } } notes :=
  { h with issued_le := fun ticket hmem => Nat.le_succ_of_le (h.issued_le ticket hmem) }

/-! ### Requests -/

theorem Inv.submit (h : b.Inv channelOf notes) (caller : String) {name : String}
    {w : Subscription α} (hw : b.widget? name = some w) :
    Inv channelOf (b.submit caller name) (notes ++ [.issued w.channel b.gate.nextTicket]) := by
  have hissue := h.issue w.channel
  have hsubmit : b.submit caller name = { b with
      gate := b.gate.issue w.channel
      pending := b.pending ++ [⟨caller, name, w.channel, b.gate.nextTicket⟩] } := by
    simp [Board.submit, hw]
  rw [hsubmit]
  refine { hissue with pending := ?_, pending_channel := ?_, once := ?_ }
  · intro s hs
    rcases List.mem_append.mp hs with hs | hs
    · exact hissue.pending s hs
    · obtain rfl := List.mem_singleton.mp hs
      exact ⟨notes, [], rfl, by simp [Gate.isCurrent, Gate.latest?_issue_self]⟩
  · intro s hs
    rcases List.mem_append.mp hs with hs | hs
    · exact h.pending_channel s hs
    · obtain rfl := List.mem_singleton.mp hs
      rw [← h.channels name, hw]
      rfl
  · rw [List.map_append, ← List.append_assoc, List.nodup_append]
    refine ⟨hissue.once, by simp, ?_⟩
    -- all tickets so far are lower
    intro t ht u hu
    obtain rfl := List.mem_singleton.mp hu
    refine Nat.ne_of_lt (Nat.lt_succ_of_le ?_)
    rcases List.mem_append.mp ht with ht | ht
    · obtain ⟨f, hf, rfl⟩ := List.mem_map.mp ht
      have hf : f ∈ finishesOf notes := by simpa [finishesOf, Note.finish?] using hf
      exact h.issued_le _ (ticket_mem (h.finish_issued hf))
    · obtain ⟨s, hs, rfl⟩ := List.mem_map.mp ht
      exact h.pending_le hs

/-- A request may end without a result. -/
theorem Inv.drop (h : b.Inv channelOf notes) (s : Submission) :
    Inv channelOf (b.drop s) notes :=
  { h with
    pending := fun t ht => h.pending t (List.mem_of_mem_erase ht)
    pending_channel := fun t ht => h.pending_channel t (List.mem_of_mem_erase ht)
    once := h.once.sublist (List.Sublist.append_left (List.erase_sublist.map _) _) }

section Arrival

variable {f : Finish α}

theorem ticketsOf_concat : ticketsOf (notes ++ [.finished f]) = ticketsOf notes :=
  (ticketsOf_append ..).trans (List.append_nil _)

theorem finishesOf_concat : finishesOf (notes ++ [.finished f]) = finishesOf notes ++ [f] :=
  finishesOf_append ..

theorem publishedOf_concat (p : Submission → Bool) :
    publishedOf p (notes ++ [.finished f]) =
      publishedOf p notes ++ if f.published && p f.request then [f] else [] := by
  simp only [publishedOf, finishesOf_concat, List.filter_append, List.filter_singleton,
    Bool.cond_eq_ite]

theorem discardedOf_concat (p : Submission → Bool) :
    discardedOf p (notes ++ [.finished f]) =
      discardedOf p notes ++ if !f.published && p f.request then [f] else [] := by
  simp only [discardedOf, finishesOf_concat, List.filter_append, List.filter_singleton,
    Bool.cond_eq_ite]

/-- The requests of others do not change what a subscription shows. -/
theorem Shows.other {name : String} {w : Subscription α} (h : Shows name w notes)
    (hname : (f.request.widget == name) = false) : Shows name w (notes ++ [.finished f]) := by
  constructor
  · simpa [publishedOf_concat, hname] using h.latest
  · simpa [publishedOf_concat, hname] using h.published
  · simpa [discardedOf_concat, hname] using h.discarded

theorem Shows.publish {name : String} {w : Subscription α} (h : Shows name w notes)
    (hname : (f.request.widget == name) = true) (hf : f.published = true) :
    Shows name (w.publish f.value) (notes ++ [.finished f]) := by
  constructor
  · simp [publishedOf_concat, hname, hf, Subscription.publish]
  · simp [publishedOf_concat, hname, hf, Subscription.publish, h.published]
  · simpa [discardedOf_concat, hname, hf, Subscription.publish] using h.discarded

theorem Shows.discard {name : String} {w : Subscription α} (h : Shows name w notes)
    (hname : (f.request.widget == name) = true) (hf : f.published = false) :
    Shows name w.discard (notes ++ [.finished f]) := by
  constructor
  · simpa [publishedOf_concat, hname, hf, Subscription.discard] using h.latest
  · simpa [publishedOf_concat, hname, hf, Subscription.discard] using h.published
  · simp [discardedOf_concat, hname, hf, Subscription.discard, h.discarded]

end Arrival

theorem widget?_update (b : Board α) (name other : String)
    (change : Subscription α → Subscription α) (hchannel : ∀ w, (change w).channel = w.channel) :
    ((b.update name change).widget? other).map (·.channel) =
      (b.widget? other).map (·.channel) := by
  have hsame : (fun w : String × Subscription α => w.1 == other) ∘
      (fun w => if w.1 == name then (w.1, change w.2) else w) = fun w => w.1 == other := by
    funext w
    by_cases hw : w.1 = name <;> simp [hw]
  simp only [widget?, update, List.find?_map, hsame, Option.map_map]
  refine congrFun (congrArg _ (funext fun w => ?_)) _
  by_cases hw : w.1 = name <;> simp [hw, hchannel]

/-- A current request is newer than all of its channel that ended. -/
theorem Inv.finished_lt (h : b.Inv channelOf notes) {s : Submission} (hs : s ∈ b.pending)
    (hcurrent : b.gate.isCurrent s.channel s.ticket = true) {f : Finish α}
    (hf : f ∈ finishesOf notes) (hsame : f.request.channel.same s.channel = true) :
    f.request.ticket < s.ticket := by
  have hissued := h.pending s hs
  rw [hcurrent] at hissued
  refine Nat.lt_of_le_of_ne (hissued.newest h.tickets (h.finish_issued hf) hsame) ?_
  -- no request that ended is under way
  exact (List.nodup_append.mp h.once).2.2 _ (List.mem_map_of_mem hf) _ (List.mem_map_of_mem hs)

/-- The result of a request is taken in. -/
theorem Inv.arrive (h : b.Inv channelOf notes) {s : Submission} (hs : s ∈ b.pending) (v : α) :
    Inv channelOf (b.arrive s v)
      (notes ++ [.finished ⟨s, v, b.gate.isCurrent s.channel s.ticket⟩]) := by
  constructor
  case channels =>
    intro name
    rw [← h.channels name]
    refine widget?_update (b.drop s) s.widget name _ fun w => ?_
    split <;> rfl
  case issued_le =>
    rw [ticketsOf_concat]
    exact h.issued_le
  case tickets =>
    rw [ticketsOf_concat]
    exact h.tickets
  case pending =>
    intro t ht
    exact (h.pending t (List.mem_of_mem_erase ht)).append (Bool.and_true _).symm
  case pending_channel => exact fun t ht => h.pending_channel t (List.mem_of_mem_erase ht)
  case finished =>
    intro before f after heq
    rcases split_of_append heq with ⟨rest, hrest⟩ | ⟨rfl, hf⟩
    · exact h.finished before f rest hrest
    · cases hf
      exact h.pending s hs
  case finished_channel =>
    intro f hf
    rw [finishesOf_concat] at hf
    rcases List.mem_append.mp hf with hf | hf
    · exact h.finished_channel f hf
    · obtain rfl := List.mem_singleton.mp hf
      exact h.pending_channel s hs
  case once =>
    have hperm := ((List.perm_cons_erase hs).map (·.ticket)).append_left
      ((finishesOf notes).map (·.request.ticket))
    rw [finishesOf_concat, List.map_append, List.append_assoc]
    exact hperm.nodup_iff.mp h.once
  case increase =>
    intro channel
    rw [publishedOf_concat]
    split
    case isFalse => simpa using h.increase channel
    case isTrue hnew =>
      obtain ⟨hcurrent, hchannel⟩ := Bool.and_eq_true_iff.mp hnew
      rw [List.map_append, List.pairwise_append]
      refine ⟨h.increase channel, List.pairwise_singleton .., ?_⟩
      intro t ht u hu
      obtain rfl := List.mem_singleton.mp hu
      obtain ⟨f, hf, rfl⟩ := List.mem_map.mp ht
      obtain ⟨hf, hselected⟩ := List.mem_filter.mp hf
      refine h.finished_lt hs hcurrent hf ?_
      rw [Value.same_congr_right hchannel]
      exact (Bool.and_eq_true_iff.mp hselected).2
  case shows =>
    intro p hp
    obtain ⟨q, hq, rfl⟩ := List.mem_map.mp hp
    have hshows := h.shows q hq
    by_cases hname : q.1 = s.widget
    · have hwidget : (s.widget == q.1) = true := by simp [hname]
      cases hcurrent : b.gate.isCurrent s.channel s.ticket with
      | true =>
        have hpublish := hshows.publish (f := ⟨s, v, true⟩) hwidget rfl
        simpa [hname, hcurrent] using hpublish
      | false =>
        have hdiscard := hshows.discard (f := ⟨s, v, false⟩) hwidget rfl
        simpa [hname, hcurrent] using hdiscard
    · have hwidget : (s.widget == q.1) = false := by simpa using Ne.symm hname
      simpa [hname] using hshows.other hwidget

/-! ### Steps and runs -/

theorem Inv.step (h : b.Inv channelOf notes) (e : Event α) :
    Inv channelOf (b.step e).1 (notes ++ (b.step e).2) := by
  have hnothing : Inv channelOf b (notes ++ []) := by
    rw [List.append_nil]
    exact h
  have hwaste : Inv channelOf { b with gate := { b.gate with issued := b.gate.nextTicket } }
      (notes ++ []) := by
    rw [List.append_nil]
    exact h.waste
  cases e with
  | submit caller name =>
    cases hw : b.widget? name with
    | none => simpa only [Board.step, hw] using hnothing
    | some w =>
      rcases b.gate.take_cases w.channel with htake | ⟨failure, htake⟩
      · simpa only [Board.step, hw, htake] using h.submit caller hw
      · simpa only [Board.step, hw, htake] using hwaste
  | finish ticket v =>
    cases hs : b.underWay? ticket with
    | none => simpa only [Board.step, hs] using hnothing
    | some s => simpa only [Board.step, hs] using h.arrive (mem_of_underWay? hs) v
  | fail ticket =>
    cases hs : b.underWay? ticket with
    | none => simpa only [Board.step, hs] using hnothing
    | some s =>
      simp only [Board.step, hs, List.append_nil]
      exact h.drop s
  | issue channel =>
    rcases b.gate.take_cases channel with htake | ⟨failure, htake⟩
    · simpa only [Board.step, htake] using h.issue channel
    · simpa only [Board.step, htake] using hwaste
  | close channel => exact h.close channel
  | closeWidget name =>
    cases hw : b.widget? name with
    | none => simpa only [Board.step, hw] using hnothing
    | some w => simpa [Board.step, hw, Board.close] using h.close w.channel

theorem Inv.run (h : b.Inv channelOf notes) (es : List (Event α)) :
    Inv channelOf (b.run es).1 (notes ++ (b.run es).2) := by
  induction es generalizing b notes with
  | nil =>
    rw [Board.run, List.append_nil]
    exact h
  | cons e rest ih =>
    rw [Board.run, ← List.append_assoc]
    exact ih (h.step e)

/-! ### The newest request wins -/

theorem play_noteDiscarded (s : Submission) (j : Log.Journal) :
    ((noteDiscarded s).play j).1 = .ok () := by
  have hnames : [("channel", s.channel), ("ticket", Value.int s.ticket)].map Prod.fst =
      ["channel", "ticket"] := rfl
  obtain ⟨fields, hfields⟩ := Log.Recorded.extraFields_object hnames (by decide)
  have hadd : ∃ j', j.add (.int Log.debug) "services.request_gate" "stale_result_discarded"
      (.object [("channel", s.channel), ("ticket", .int s.ticket)]) none = .ok j' := by
    rw [Log.Recorded.add_int, hfields]
    split <;> exact ⟨_, rfl⟩
  obtain ⟨j', hj'⟩ := hadd
  rw [noteDiscarded, Log.Recorded.play_event, hj']

/-- With its records the arrival of a result is the same, and the result goes
    back to the caller if it is published. -/
theorem play_arriveRecorded (b : Board α) (s : Submission) (v : α) (j : Log.Journal) :
    ((b.arriveRecorded s v).play j).1 =
      .ok (b.arrive s v, if b.gate.isCurrent s.channel s.ticket then some v else none) := by
  unfold arriveRecorded
  cases b.gate.isCurrent s.channel s.ticket with
  | true => rfl
  | false =>
    have hnote := play_noteDiscarded s j
    simp only [Bool.false_eq_true, if_false, Log.Recorded.play_bind]
    revert hnote
    rcases (noteDiscarded s).play j with ⟨f | u, j'⟩ <;> intro hnote
    · cases hnote
    · rfl

/-- The results of one subscription are published in the order of their
    tickets. -/
theorem Inv.increase_widget (h : b.Inv channelOf notes) (name : String) :
    ((publishedOf (·.widget == name) notes).map (·.request.ticket)).Pairwise (· < ·) := by
  -- a subscription has one channel
  have hsub : publishedOf (·.widget == name) notes =
      (publishedOf (·.channel.same ((channelOf name).getD .null)) notes).filter
        (·.request.widget == name) := by
    simp only [publishedOf, List.filter_filter]
    refine List.filter_congr fun f hf => ?_
    cases hname : f.request.widget == name with
    | true =>
      obtain rfl := beq_iff_eq.mp hname
      simp [h.finished_channel f hf]
    | false => simp
  rw [hsub]
  exact (h.increase _).sublist (List.filter_sublist.map _)

/-- What a subscription shows is the result of its highest published ticket. -/
theorem Inv.shows_newest (h : b.Inv channelOf notes) {name : String} {w : Subscription α}
    (hw : (name, w) ∈ b.widgets) {f : Finish α}
    (hf : f ∈ publishedOf (·.widget == name) notes) :
    ∃ g ∈ publishedOf (·.widget == name) notes,
      w.latest = some g.value ∧ f.request.ticket ≤ g.request.ticket := by
  have hlatest := (h.shows (name, w) hw).latest
  have hincrease := h.increase_widget name
  rcases List.eq_nil_or_concat (publishedOf (·.widget == name) notes) with
    hnil | ⟨before, g, hconcat⟩
  · rw [hnil] at hf
    cases hf
  · rw [hconcat] at hlatest hincrease hf ⊢
    refine ⟨g, by simp, by simpa using hlatest, ?_⟩
    rw [List.concat_eq_append] at hincrease hf
    rw [List.map_append, List.pairwise_append] at hincrease
    rcases List.mem_append.mp hf with hf | hf
    · exact Nat.le_of_lt (hincrease.2.2 _ (List.mem_map_of_mem hf) _ (by simp))
    · obtain rfl := List.mem_singleton.mp hf
      exact Nat.le_refl _

/-- How a board and the notes on its run belong together. -/
structure NewestWins (b : Board α) (notes : List (Note α)) : Prop where
  /-- Tickets increase over the whole gate. -/
  tickets : (ticketsOf notes).Pairwise (· < ·)
  /-- A request under way whose computation returns ends there and then, and its
      caller gets the result exactly if it is published. -/
  finish : ∀ s ∈ b.pending, ∀ v, ∃ published,
    b.step (.finish s.ticket v) = (b.arrive s v, [.finished ⟨s, v, published⟩]) ∧
    ∀ j, ((b.arriveRecorded s v).play j).1 =
      .ok (b.arrive s v, if published then some v else none)
  /-- No request ends twice. -/
  once : ((finishesOf notes).map (·.request.ticket) ++ b.pending.map (·.ticket)).Nodup
  /-- A request is made on the channel of its subscription. -/
  channel : ∀ f ∈ finishesOf notes,
    (b.widget? f.request.widget).map (·.channel) = some f.request.channel
  /-- A result is published exactly if, between the issue of its ticket and its
      arrival, no ticket of its channel was issued and its channel was not
      closed. -/
  published_iff : ∀ before f after, notes = before ++ .finished f :: after →
    ∃ earlier since,
      before = earlier ++ .issued f.request.channel f.request.ticket :: since ∧
      (f.published = true ↔ ∀ x ∈ since, x.supersedes f.request.channel = false)
  /-- The tickets published on one channel increase. -/
  increase : ∀ channel,
    ((publishedOf (·.channel.same channel) notes).map (·.request.ticket)).Pairwise (· < ·)
  /-- A subscription shows the result that was published last, which is that of
      its highest published ticket. -/
  latest : ∀ name w, (name, w) ∈ b.widgets →
    w.latest = ((publishedOf (·.widget == name) notes).getLast?).map (·.value) ∧
    ∀ f ∈ publishedOf (·.widget == name) notes, ∃ g ∈ publishedOf (·.widget == name) notes,
      w.latest = some g.value ∧ f.request.ticket ≤ g.request.ticket
  /-- Every request that ended with a result is counted once, as published or
      as discarded. -/
  counts : ∀ name w, (name, w) ∈ b.widgets →
    w.published = (publishedOf (·.widget == name) notes).length ∧
    w.discarded = (discardedOf (·.widget == name) notes).length ∧
    w.published + w.discarded = (finishesOf notes).countP (·.request.widget == name)

/-- **The newest request wins**, on any number of channels and subscriptions
    that share a gate and in every run: requests, the ends of their computations
    in any order, tickets that are taken directly, and closes. -/
theorem newest_wins (widgets : List (String × Value)) (es : List (Event α)) :
    NewestWins ((start widgets).run es).1 ((start widgets).run es).2 := by
  have h := (start_inv widgets).run es
  rw [List.nil_append] at h
  constructor
  case tickets => exact h.tickets
  case finish =>
    intro s hs v
    refine ⟨_, ?_, fun j => play_arriveRecorded _ s v j⟩
    simp only [step, h.underWay?_eq hs]
  case once => exact h.once
  case channel =>
    intro f hf
    rw [h.channels]
    exact h.finished_channel f hf
  case published_iff => exact h.finished
  case increase => exact h.increase
  case latest =>
    intro name w hw
    exact ⟨(h.shows (name, w) hw).latest, fun f hf => h.shows_newest hw hf⟩
  case counts =>
    intro name w hw
    have hshows := h.shows (name, w) hw
    refine ⟨hshows.published, hshows.discarded, ?_⟩
    rw [hshows.published, hshows.discarded]
    exact length_published_add_discarded _ _

end Board

end KeyFigures
