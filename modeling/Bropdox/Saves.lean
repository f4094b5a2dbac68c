import Bropdox.Rounds

/-!
# Many events of one save

A watcher records a save as any number of creations and modifications of the same file, and a batch
has them all.  The server's copy is stamped with the server's clock when it is written, so that it
is later than all of them: what `check_freshness` accepts is the first one, and no other before the
file is removed.

## What is here

* `Timely` says of a batch that the clock of the server is not behind it, and that every file that
  the server accepts can be sent.
* `Costs` is a kind of reaction that comes once when an event of a file is accepted, such as the
  positive answer or the upload; `Timely.countP_le_one` is the argument that between two removals a
  file costs one of them at most.
* `SaveSetting` are the circumstances of a session and `TransfersOnce` the property: whatever the
  schedule, and wherever the session has got to, the events have been answered in order and no file
  was transferred twice without a removal in between.
* `one_transfer_each` says so for every batch, by the reactions of `Rounds.lean`.
* `edit_recorded_twice` is a save that was recorded twice.
-/

set_option autoImplicit false

namespace Bropdox

open FileSystem Session

namespace Replica

/-! ## The clock

The times of the server's copies, event by event. -/

section Clock

variable {h : FileHost} {client : Store} {r : Replica} {event : FileEvent}
  {events : List FileEvent} {f : Name} {now : Int}

/-- Later writes are later. -/
theorem applyEvent_clock (hclock : ∀ n, now ≤ r.clock n) (n : Nat) :
    now ≤ (r.applyEvent client event).clock n := by
  rcases applyEvent_cases client r event with hsame | ⟨x, -, -, hsave⟩ | ⟨-, hremove⟩
  · rw [hsame]
    exact hclock n
  · rw [hsave]
    exact hclock (n + 1)
  · rw [hremove]
    exact hclock n

/-- A copy that is not older than any event is later than all of them, and stays so until it is
removed. -/
theorem le_modifiedTime_applyEvent (hclock : ∀ n, now ≤ r.clock n)
    (hf : now ≤ r.store.modifiedTime f) (hrem : ¬ (event.event = .remove ∧ event.fileName = f)) :
    now ≤ (r.applyEvent client event).store.modifiedTime f := by
  rcases applyEvent_cases client r event with hsame | ⟨x, -, -, hsave⟩ | ⟨hremove, hgone⟩
  · rwa [hsame]
  · rw [hsave, save_store]
    by_cases he : f = event.fileName
    · subst he
      rw [Store.modifiedTime_save_self]
      exact hclock 0
    · rwa [Store.modifiedTime_save_of_ne _ _ he]
  · have he : f ≠ event.fileName := fun he ↦ hrem ⟨hremove, he.symm⟩
    rwa [hgone, remove_store, Store.modifiedTime_remove_of_ne _ he]

/-- What has been uploaded is stamped with the clock. -/
theorem le_modifiedTime_of_accepts (hclock : ∀ n, now ≤ r.clock n) (hacc : r.Accepts event)
    (hclient : ∃ x, client event.fileName = some x) :
    now ≤ (r.applyEvent client event).store.modifiedTime event.fileName := by
  obtain ⟨x, hx⟩ := hclient
  rw [applyEvent_accepted hacc hx, save_store, Store.modifiedTime_save_self]
  exact hclock 0

theorem not_accepts_of_le (hpast : event.file.modifiedTime ≤ now)
    (hf : now ≤ r.store.modifiedTime event.fileName) : ¬ r.Accepts event :=
  fun hacc ↦ absurd hacc.2 (not_lt.mpr (hpast.trans hf))

end Clock

/-- A batch that was recorded before the clock of the server came to show what it does, and of which
every file that is accepted can be uploaded. -/
structure Timely (h : FileHost) (client : Store) (now : Int) (r : Replica)
    (events : List FileEvent) : Prop where
  /-- What is written from now on is not older than `now`. -/
  clock : ∀ n, now ≤ r.clock n
  /-- The events are not later. -/
  past : ∀ event ∈ events, event.file.modifiedTime ≤ now
  /-- The files the server accepts exist, and `read_file` counts them right. -/
  uploads : Uploadable h client r events

/-- A kind of reaction that comes once when an event of the file is accepted, and not otherwise. -/
structure Costs (f : Name) (Q : Reaction → Prop) : Prop where
  /-- The reaction may be the answer to an event of the file. -/
  of_answer : ∀ (r : Replica) (event : FileEvent),
    Q (.answer event (decide (r.Accepts event ∨ event.event = .remove))) →
      r.Accepts event ∧ event.fileName = f
  /-- The reaction may be an upload of the file. -/
  of_upload : ∀ g, Q (.upload g) → g = f
  /-- The reaction is not both an answer and an upload. -/
  once : ∀ event confirmation g, Q (.answer event confirmation) → ¬ Q (.upload g)

theorem costs_accepts (f : Name) : Costs f (Reaction.Accepts f) where
  of_answer := by
    rintro r event ⟨hwrite, hf, hc⟩
    rcases of_decide_eq_true hc with hacc | hrem
    · exact ⟨hacc, hf⟩
    · rw [hrem] at hwrite
      rcases hwrite with hwrite | hwrite <;> cases hwrite
  of_upload _ := False.elim
  once _ _ _ _ := id

theorem costs_uploads (f : Name) : Costs f (Reaction.Uploads f) where
  of_answer _ _ := False.elim
  of_upload _ := id
  once _ _ _ := False.elim

section Once

variable {h : FileHost} {client : Store} {now : Int} {r : Replica} {event : FileEvent}
  {events : List FileEvent} {f : Name} {Q : Reaction → Prop} [DecidablePred Q]
  {stretch : List Reaction}

theorem Timely.tail (ht : Timely h client now r (event :: events)) :
    Timely h client now (r.applyEvent client event) events where
  clock := applyEvent_clock ht.clock
  past := fun e he ↦ ht.past e (List.mem_cons_of_mem _ he)
  uploads := ht.uploads.2

/-- A round costs the file at most one transfer. -/
theorem Costs.countP_round_le (hQ : Costs f Q) (r : Replica) (event : FileEvent) :
    (r.round event).countP Q ≤ 1 := by
  rw [round]
  split
  · by_cases hanswer : Q (.answer event (decide (r.Accepts event ∨ event.event = .remove)))
    · have hupload : [Reaction.upload event.fileName].countP Q = 0 := by
        rw [List.countP_singleton, if_neg (by simpa using hQ.once _ _ _ hanswer)]
      rw [List.countP_cons, hupload]
      split <;> decide
    · rw [List.countP_cons_of_neg (by simpa using hanswer)]
      exact List.countP_le_length
  · exact List.countP_le_length

/-- Only a round in which an event of the file is accepted costs anything. -/
theorem Costs.countP_round_eq_zero (hQ : Costs f Q)
    (hnot : ¬ (r.Accepts event ∧ event.fileName = f)) : (r.round event).countP Q = 0 := by
  rw [List.countP_eq_zero]
  intro x hx hcost
  rw [decide_eq_true_eq] at hcost
  rw [round] at hx
  rcases List.mem_cons.mp hx with rfl | hx
  · exact hnot (hQ.of_answer r event hcost)
  · split at hx
    · next hacc =>
      obtain rfl := List.mem_singleton.mp hx
      exact hnot ⟨hacc, hQ.of_upload _ hcost⟩
    · cases hx

/-- While the server's copy is later than all events, the file costs nothing. -/
theorem Timely.countP_eq_zero (hQ : Costs f Q) (ht : Timely h client now r events)
    (hf : now ≤ r.store.modifiedTime f) (hstretch : stretch <+: r.reactions client events)
    (hrem : ∀ x ∈ stretch, ¬ x.Removes f) : stretch.countP Q = 0 := by
  induction events generalizing r stretch with
  | nil =>
    rw [List.prefix_nil.mp hstretch]
    rfl
  | cons event events ih =>
    have hround : (r.round event).countP Q = 0 := by
      refine hQ.countP_round_eq_zero ?_
      rintro ⟨hacc, rfl⟩
      exact not_accepts_of_le (ht.past event List.mem_cons_self) hf hacc
    rcases List.prefix_or_prefix_of_prefix hstretch (List.prefix_append (r.round event) _)
      with hle | ⟨rest, rfl⟩
    · exact Nat.le_zero.mp (hround ▸ hle.countP_le)
    · rw [List.countP_append, hround, Nat.zero_add]
      rw [reactions, List.prefix_append_right_inj] at hstretch
      have hkept : ¬ (event.event = .remove ∧ event.fileName = f) :=
        hrem _ (List.mem_append_left _ List.mem_cons_self)
      exact ih ht.tail (le_modifiedTime_applyEvent ht.clock hf hkept) hstretch
        fun x hx ↦ hrem x (List.mem_append_right _ hx)

/-- Once an event has been accepted, the file costs nothing any more. -/
theorem Timely.countP_tail_eq_zero (hQ : Costs f Q) (ht : Timely h client now r (event :: events))
    (hacc : r.Accepts event) (hf : event.fileName = f)
    (hstretch : stretch <+: (r.applyEvent client event).reactions client events)
    (hrem : ∀ x ∈ stretch, ¬ x.Removes f) : stretch.countP Q = 0 := by
  obtain ⟨x, hx, -⟩ := ht.uploads.1 hacc
  have hlate := le_modifiedTime_of_accepts ht.clock hacc ⟨x, hx⟩
  exact ht.tail.countP_eq_zero hQ (hf ▸ hlate) hstretch hrem

/-- From the beginning of a batch, the file costs one transfer at most until it is removed. -/
theorem Timely.countP_le_one_of_prefix (hQ : Costs f Q) (ht : Timely h client now r events)
    (hstretch : stretch <+: r.reactions client events)
    (hrem : ∀ x ∈ stretch, ¬ x.Removes f) : stretch.countP Q ≤ 1 := by
  induction events generalizing r stretch with
  | nil =>
    rw [List.prefix_nil.mp hstretch]
    exact Nat.zero_le _
  | cons event events ih =>
    have hround := hQ.countP_round_le r event
    rcases List.prefix_or_prefix_of_prefix hstretch (List.prefix_append (r.round event) _)
      with hle | ⟨rest, rfl⟩
    · exact hle.countP_le.trans hround
    · rw [List.countP_append]
      rw [reactions, List.prefix_append_right_inj] at hstretch
      have hrest : ∀ x ∈ rest, ¬ x.Removes f := fun x hx ↦ hrem x (List.mem_append_right _ hx)
      by_cases hacc : r.Accepts event ∧ event.fileName = f
      · rw [ht.countP_tail_eq_zero hQ hacc.1 hacc.2 hstretch hrest]
        exact hround
      · rw [hQ.countP_round_eq_zero hacc, Nat.zero_add]
        exact ih ht.tail hstretch hrest

/-- **Between two removals a file costs one transfer at most.** -/
theorem Timely.countP_le_one (hQ : Costs f Q) (ht : Timely h client now r events)
    (hstretch : stretch <:+: r.reactions client events)
    (hrem : ∀ x ∈ stretch, ¬ x.Removes f) : stretch.countP Q ≤ 1 := by
  induction events generalizing r with
  | nil =>
    rw [List.eq_nil_of_infix_nil hstretch]
    exact Nat.zero_le _
  | cons event events ih =>
    have hfirst (hle : stretch <+: r.reactions client (event :: events)) :
        stretch.countP Q ≤ 1 :=
      ht.countP_le_one_of_prefix hQ hle hrem
    rw [reactions, round, List.cons_append] at hstretch
    rcases List.infix_cons_iff.mp hstretch with hle | hstretch
    · exact hfirst hle
    by_cases hacc : r.Accepts event
    · rw [if_pos hacc, List.singleton_append] at hstretch
      rcases List.infix_cons_iff.mp hstretch with hle | hstretch
      · -- the stretch begins between the answer and the upload
        rcases List.prefix_cons_iff.mp hle with rfl | ⟨rest, rfl, hrest⟩
        · exact Nat.zero_le _
        have hnot : ∀ x ∈ rest, ¬ x.Removes f := fun x hx ↦ hrem x (List.mem_cons_of_mem _ hx)
        by_cases hupload : Q (.upload event.fileName)
        · rw [List.countP_cons_of_pos (by simpa using hupload),
            ht.countP_tail_eq_zero hQ hacc (hQ.of_upload _ hupload) hrest hnot]
        · rw [List.countP_cons_of_neg (by simpa using hupload)]
          exact ht.tail.countP_le_one_of_prefix hQ hrest hnot
      · exact ih ht.tail hstretch
    · rw [if_neg hacc] at hstretch
      exact ih ht.tail hstretch

end Once
end Replica

/-! ## The session

From the specification to what is seen of the server in any state of any session. -/

/-- The circumstances: `now` is what the clock of the server shows when the session starts. -/
structure SaveSetting (h : Client.Host) (h' : FileHost) (events : List FileEvent) (p q : Path)
    (now : Int) : Prop where
  /-- The sync directory of the client is flat. -/
  client : FlatDir h.files.machine h.files.syncDir p
  /-- The sync directory of the server is flat. -/
  server : FlatDir h'.machine h'.syncDir q
  /-- The events are those of a watcher. -/
  watched : ∀ event ∈ events, Watched h.files p event
  /-- The events are not later than the clock. -/
  past : ∀ event ∈ events, event.file.modifiedTime ≤ now
  /-- The clock does not run back: what the server writes is stamped `now` or later. -/
  clock : ∀ n, now ≤ h'.machine.clock n
  /-- Every transfer that is accepted completes: the file exists, and `read_file` counts its packets
  right. -/
  uploads : Uploadable h.files (h.files.view p) (h'.replica q) events

/-- The reactions to a batch, up to some point: the events are answered in order, and between two
removals of a file, or the ends of the batch, one creation or modification of it is accepted at
most, and it is uploaded at most once. -/
structure OnceEach (events : List FileEvent) (seen : List Reaction) : Prop where
  /-- What is answered are the first events of the batch. -/
  answered : seen.filterMap Reaction.event? <+: events
  /-- What is accepted. -/
  accepted : ∀ f stretch, stretch <:+: seen → (∀ x ∈ stretch, ¬ x.Removes f) →
    stretch.countP (Reaction.Accepts f) ≤ 1
  /-- What is uploaded. -/
  uploaded : ∀ f stretch, stretch <:+: seen → (∀ x ∈ stretch, ¬ x.Removes f) →
    stretch.countP (Reaction.Uploads f) ≤ 1

/-- Whatever the schedule, and wherever the session has got to, the server has reacted so. -/
def TransfersOnce (h : Client.Host) (h' : FileHost) (events : List FileEvent) : Prop :=
  ∀ evs y, Pair.Run peers (syncStart h h' events) evs y → OnceEach events (reactions none evs)

/-- **Many events of one save cost one transfer.** -/
theorem one_transfer_each {h : Client.Host} {h' : FileHost} {events : List FileEvent} {p q : Path}
    {now : Int} (hs : SaveSetting h h' events p q now) : TransfersOnce h h' events := by
  intro evs y hrun
  have hc : h.files.Mirrors p (h.files.replica p) := ⟨hs.client, rfl, rfl⟩
  have hr : h'.Mirrors q (h'.replica q) := ⟨hs.server, rfl, rfl⟩
  have hseen := reactions_prefix hc hr hs.watched hs.uploads hrun
  have ht : Replica.Timely h.files (h.files.view p) now (h'.replica q) events :=
    ⟨hs.clock, hs.past, hs.uploads⟩
  refine ⟨?_, fun f stretch hstretch hrem ↦ ?_, fun f stretch hstretch hrem ↦ ?_⟩
  · rw [← Replica.filterMap_event?_reactions (h.files.view p) (h'.replica q) events]
    exact hseen.filterMap _
  · exact ht.countP_le_one (Replica.costs_accepts f) (hstretch.trans hseen.isInfix) hrem
  · exact ht.countP_le_one (Replica.costs_uploads f) (hstretch.trans hseen.isInfix) hrem

/-- A server without files, whose clock shows 9. -/
def lateServer : FileHost := .ofFiles (fun _ ↦ 9) ['s'] [] countPackets

/-- A save that was recorded twice. -/
theorem edit_recorded_twice : TransfersOnce edited lateServer [editEvent, editEvent] := by
  have hclient : edited.files.Mirrors [['c']] (edited.files.replica [['c']]) :=
    FileHost.mirrors_ofFiles rfl (by decide)
  have hserver : lateServer.Mirrors [['s']] (lateServer.replica [['s']]) :=
    FileHost.mirrors_ofFiles rfl (List.forall_mem_nil _)
  have hcount : ∃ x, edited.files.view [['c']] editEvent.fileName = some x ∧
      WellCounted edited.files x.contents :=
    ⟨_, rfl, wellCounted_of_lt rfl (by decide) (by decide)⟩
  have hevent : ∀ event ∈ [editEvent, editEvent], event = editEvent := by simp
  have hsetting : SaveSetting edited lateServer [editEvent, editEvent] [['c']] [['s']] 9 := by
    refine ⟨hclient.flat, hserver.flat, fun event he ↦ ?_, fun event he ↦ ?_, fun _ ↦ le_rfl,
      fun _ ↦ hcount, fun _ ↦ hcount, trivial⟩
    · rw [hevent event he]
      exact ⟨.inr (.inl rfl), rfl, by decide, rfl⟩
    · rw [hevent event he]
      decide
  exact one_transfer_each hsetting

end Bropdox
