import Bropdox.Daemon
import Bropdox.Sync

/-!
# What happens between two polls

The user creates, modifies and removes files directly in the sync directory, any number of times and
in any order.  Each change is recorded as it is made, with the size and the time the file has then;
`sync_client` is given the whole batch at the next poll, and reads the files as they are by then.

## What is here

* `Change` is one change of the user, with what it does to the machine (`act`), to the files of the
  directory (`apply`) and to the watcher (`notification`, `event`); `history` is many of them.
  `history_eq` says that the three views of a history fit together.
* `changed_eq_none_iff`: a file of the batch is gone by the time of the poll if and only if its last
  event is a removal (`EndsRemoved`).
* `Replica.settle` is what an event does to the server if the session gets past it, and
  `takeEvents_eq_some_iff` says where the session gets past a whole batch: every file that the
  server accepts can be sent when it is the turn of its event.
* `Survived` is the property of a history: it is recorded, the session of the next poll comes to its
  end under every schedule, and the server then has none of the files whose last event is a removal.
* `Survivable` is the condition, and `history_survived_iff` the equivalence: an event that the
  server accepts must not be of a file that was removed later on.  `send_file` of the server answers
  for a file that is gone; the one of the client lets the exception escape.
* `recreated_survived` and `removal_not_survived` are a file that is removed and created again, and
  one that is removed and stays away.
-/

set_option autoImplicit false

namespace Bropdox

open FileSystem Session

/-! ## The changes

What the user does, and what the watcher makes of it. -/

/-- What the user does to a file of the sync directory. -/
inductive Change
  | create (f : Name) (c : Contents)
  | modify (f : Name) (c : Contents)
  | remove (f : Name)

namespace Change

/-- The name of the file that is changed. -/
def file : Change → Name
  | create f _ => f
  | modify f _ => f
  | remove f => f

/-- The event inotify makes of it. -/
def kind : Change → Event
  | create .. => .create
  | modify .. => .modify
  | remove _ => .remove

/-- What a change does to the machine. -/
def act (dir : Name) (m : Machine) : Change → Machine
  | create f c => m.write (dir ++ f) c.bytes
  | modify f c => m.write (dir ++ f) c.bytes
  | remove f => (m.remove (dir ++ f)).getD m

/-- What a change does to the files of the directory. -/
def apply (r : Replica) : Change → Replica
  | create f c => r.save f c
  | modify f c => r.save f c
  | remove f => r.remove f

/-- What the watcher is told about a change. -/
def notification (dir : Name) (change : Change) : Notification := ⟨dir ++ change.file, change.kind⟩

/-- What the watcher records of a change, given the files after it was made. -/
def event (dir : Name) (r : Replica) (change : Change) : FileEvent :=
  ⟨⟨dir ++ change.file, r.store.size change.file, r.store.modifiedTime change.file⟩, change.kind⟩

end Change

/-- The changes are made one after the other, and the watcher is told of each when it has been
made. -/
def history (dir : Name) : List Change → Machine → Watcher → Except Exn (Machine × Watcher)
  | [], m, w => .ok (m, w)
  | change :: changes, m, w => do
    let m := change.act dir m
    let w ← w.handleFileModification m (change.notification dir)
    history dir changes m w

/-- What a list of changes does to the files. -/
def Replica.changed (r : Replica) (changes : List Change) : Replica := changes.foldl Change.apply r

/-- The events that are recorded of a list of changes. -/
def eventsOf (dir : Name) : Replica → List Change → List FileEvent
  | _, [] => []
  | r, change :: changes =>
    change.event dir (change.apply r) :: eventsOf dir (change.apply r) changes

section Changes

variable {h : FileHost} {p : Path} {c : Replica} {change : Change} {changes : List Change}

/-- A change of the machine is a change of the files in the directory. -/
theorem FileHost.Mirrors.act (hc : h.Mirrors p c) (hf : Plain change.file) :
    ({ h with machine := change.act h.syncDir h.machine } : FileHost).Mirrors p
      (change.apply c) := by
  have hwrite (f : Name) (hf : Plain f) (x : Contents) :
      ({ h with machine := h.machine.write (h.syncDir ++ f) x.bytes } : FileHost).Mirrors p
        (c.save f x) := by
    rw [hc.flat.write hf]
    exact hc.put hf x
  cases change with
  | create f x => exact hwrite f hf x
  | modify f x => exact hwrite f hf x
  | remove f =>
    rw [Change.act, Change.apply]
    cases hx : h.machine.view p f with
    | none =>
      -- there is nothing to remove
      have hnone : c.store f = none := hc.view_eq ▸ hx
      have hat : h.machine.disk.at? (p ++ [f]) = none := by
        rw [hc.flat.at?_eq, hx, Option.map_none]
      have hsame : (h.machine.remove (h.syncDir ++ f)).getD h.machine = h.machine := by
        rw [Machine.remove, hc.flat.resolve (f := f) hf]
        simp [hat]
      rw [hsame, Replica.remove, Store.remove_of_none hnone]
      exact hc
    | some x =>
      rw [hc.flat.remove hx, Option.getD_some]
      exact hc.erase hx

/-- The watcher records the file as it is after the change. -/
theorem FileHost.Mirrors.eventOf (hc : h.Mirrors p c) (hf : Plain change.file) :
    Watcher.eventOf h.machine (change.notification h.syncDir) = .ok (change.event h.syncDir c) := by
  have hinfo : fileInfo h.machine (h.syncDir ++ change.file) [] = .ok ⟨h.syncDir ++ change.file,
      c.store.size change.file, c.store.modifiedTime change.file⟩ := by
    rw [fileInfo, List.nil_append, hc.flat.exists hf, hc.flat.stat hf, ← hc.view_eq,
      FileHost.view, Store.size, Store.modifiedTime]
    cases h.machine.view p change.file <;> rfl
  rw [Watcher.eventOf, Change.notification, hinfo]
  rfl

/-- **A history that only concerns files of the directory is recorded completely**, and leaves the
directory flat. -/
theorem history_eq (hc : h.Mirrors p c) (hplain : ∀ change ∈ changes, Plain change.file)
    (w : Watcher) :
    ∃ m, history h.syncDir changes h.machine w =
        .ok (m, { w with modifiedFiles := w.modifiedFiles ++ eventsOf h.syncDir c changes }) ∧
      ({ h with machine := m } : FileHost).Mirrors p (c.changed changes) := by
  induction changes generalizing h c w with
  | nil => exact ⟨h.machine, by rw [eventsOf, List.append_nil]; rfl, hc⟩
  | cons change changes ih =>
    have hf : Plain change.file := hplain change List.mem_cons_self
    have hact := hc.act hf
    have hrecord := hact.eventOf hf
    obtain ⟨m, hrest, hm⟩ := ih hact (fun e he ↦ hplain e (List.mem_cons_of_mem _ he))
      { w with modifiedFiles := w.modifiedFiles ++ [change.event h.syncDir (change.apply c)] }
    refine ⟨m, ?_, hm⟩
    rw [List.append_assoc] at hrest
    rw [history, Watcher.handleFileModification, hrecord]
    exact hrest

/-- Every recorded event is one of a file directly in the directory. -/
theorem eventsOf_watched {s : FileHost} (habs : isAbsolute s.syncDir = true)
    (hd : FlatDir s.machine s.syncDir p) (hplain : ∀ change ∈ changes, Plain change.file) :
    ∀ event ∈ eventsOf s.syncDir c changes, Watched s p event := by
  induction changes generalizing c with
  | nil => exact List.forall_mem_nil _
  | cons change changes ih =>
    have hf : Plain change.file := hplain change List.mem_cons_self
    refine List.forall_mem_cons.mpr ⟨?_, ih fun e he ↦ hplain e (List.mem_cons_of_mem _ he)⟩
    have hname : (change.event s.syncDir (change.apply c)).fileName = change.file := hd.filename hf
    refine ⟨?_, isAbsolute_append habs _, hname ▸ hf, ?_⟩
    · cases change with
      | create f x => exact .inl rfl
      | modify f x => exact .inr (.inl rfl)
      | remove f => exact .inr (.inr rfl)
    · rw [hname]
      exact hd.resolve hf

end Changes

/-! ## The last event of a file

Of all events of a file only the last one says whether the file is still there. -/

/-- The last event of the file `f` in a batch is a removal. -/
def EndsRemoved (events : List FileEvent) (f : Name) : Prop :=
  ((events.filter fun event ↦ event.fileName = f).getLast?).map FileEvent.event = some .remove

instance (events : List FileEvent) (f : Name) : Decidable (EndsRemoved events f) :=
  inferInstanceAs (Decidable (_ = _))

section Last

variable {event : FileEvent} {events : List FileEvent} {f : Name}

theorem endsRemoved_concat :
    EndsRemoved (events ++ [event]) f ↔
      if event.fileName = f then event.event = .remove else EndsRemoved events f := by
  rw [EndsRemoved, List.filter_append, List.filter_singleton]
  by_cases hf : event.fileName = f
  · simp [hf]
  · simp [hf, EndsRemoved]

theorem eventsOf_append (dir : Name) (c : Replica) (changes changes' : List Change) :
    eventsOf dir c (changes ++ changes') =
      eventsOf dir c changes ++ eventsOf dir (c.changed changes) changes' := by
  induction changes generalizing c with
  | nil => rfl
  | cons change changes ih =>
    rw [List.cons_append, eventsOf, ih, eventsOf, List.cons_append]
    rfl

/-- What a change does to the file it is about, and to the others. -/
theorem Change.apply_store (change : Change) (r : Replica) (f : Name) :
    if change.file = f then ((change.apply r).store f = none ↔ change.kind = .remove)
    else (change.apply r).store f = r.store f := by
  by_cases hf : change.file = f
  · subst hf
    rw [if_pos rfl]
    cases change <;> simp [apply, kind, file]
  · rw [if_neg hf]
    cases change with
    | create g c => exact Store.save_of_ne _ _ (Ne.symm hf)
    | modify g c => exact Store.save_of_ne _ _ (Ne.symm hf)
    | remove g => exact Store.remove_of_ne _ (Ne.symm hf)

/-- **A file of the batch is gone if and only if its last event is a removal.** -/
theorem changed_eq_none_iff {dir : Name} {c : Replica} {changes : List Change}
    (hname : ∀ change ∈ changes, filename (dir ++ change.file) = change.file)
    (hf : ∃ event ∈ eventsOf dir c changes, event.fileName = f) :
    (c.changed changes).store f = none ↔ EndsRemoved (eventsOf dir c changes) f := by
  induction changes using List.reverseRecOn with
  | nil =>
    obtain ⟨event, hmem, -⟩ := hf
    cases hmem
  | append_singleton changes change ih =>
    have hlast : filename (dir ++ change.file) = change.file := hname change (by simp)
    have happly := change.apply_store (c.changed changes) f
    have hstore : c.changed (changes ++ [change]) = change.apply (c.changed changes) := by
      simp [Replica.changed]
    rw [eventsOf_append] at hf ⊢
    rw [eventsOf, eventsOf, endsRemoved_concat, hstore, FileEvent.fileName, Change.event, hlast]
    by_cases hchange : change.file = f
    · rwa [if_pos hchange] at happly ⊢
    · rw [if_neg hchange] at happly ⊢
      rw [happly]
      refine ih (fun e he ↦ hname e (List.mem_append_left _ he)) ?_
      obtain ⟨event, hmem, hevent⟩ := hf
      rcases List.mem_append.mp hmem with hmem | hmem
      · exact ⟨event, hmem, hevent⟩
      · obtain rfl := List.mem_singleton.mp hmem
        exact absurd (hlast.symm.trans hevent) hchange

end Last

/-! ## What the batch does to the server

The events one by one, with the files of the client as they are at the poll. -/

section Batch

variable {h : FileHost} {client : Store} {r r' : Replica} {event : FileEvent}
  {events : List FileEvent} {f : Name}

/-- What an event does to the server's replica if the session gets past it: a file that is announced
with no packets is not taken over. -/
def Replica.settle (h : FileHost) (client : Store) (r : Replica) (event : FileEvent) : Replica :=
  if r.Accepts event ∧ (client event.fileName).any fun x ↦ h.announced x.contents = 0 then r
  else r.applyEvent client event

/-- What a list of events does to the server's replica if the session gets past all of them. -/
def Replica.settled (h : FileHost) (client : Store) (r : Replica) (events : List FileEvent) :
    Replica :=
  events.foldl (Replica.settle h client) r

/-- `send_file` gets through with a file: its packets are counted right, or it is announced with
none and refused. -/
def FileHost.CanSend (h : FileHost) (x : File) : Prop :=
  h.announced x.contents = 0 ∨ WellCounted h x.contents

theorem Replica.takeEvent_eq_some_iff :
    r.takeEvent h client event = some r' ↔
      (r.Accepts event → ∃ x, client event.fileName = some x ∧ h.CanSend x) ∧
        r.settle h client event = r' := by
  rw [takeEvent, settle]
  by_cases hacc : r.Accepts event
  · cases hx : client event.fileName with
    | none => simp [hacc]
    | some x =>
      by_cases hzero : h.announced x.contents = 0
      · simp [hacc, hzero, FileHost.CanSend]
      · by_cases hcount : WellCounted h x.contents <;>
          simp [hacc, hzero, hcount, FileHost.CanSend, applyEvent, hx]
  · simp [hacc]

/-- **The session gets past a batch** if and only if it can send every file that the server accepts
when it is the turn of the event. -/
theorem Replica.takeEvents_eq_some_iff :
    r.takeEvents h client events = some r' ↔
      (∀ earlier event later, events = earlier ++ event :: later →
        (r.settled h client earlier).Accepts event →
          ∃ x, client event.fileName = some x ∧ h.CanSend x) ∧
        r.settled h client events = r' := by
  induction events generalizing r with
  | nil =>
    rw [takeEvents, settled, List.foldl_nil, Option.some_inj]
    exact ⟨fun h' ↦ ⟨by simp, h'⟩, And.right⟩
  | cons event events ih =>
    rw [takeEvents, Option.bind_eq_some_iff]
    constructor
    · rintro ⟨r₁, hone, hrest⟩
      obtain ⟨hsend, rfl⟩ := takeEvent_eq_some_iff.mp hone
      obtain ⟨hall, hr'⟩ := ih.mp hrest
      refine ⟨fun earlier e later he hacc ↦ ?_, hr'⟩
      cases earlier with
      | nil =>
        obtain ⟨rfl, -⟩ := List.cons.inj he
        exact hsend hacc
      | cons e' earlier =>
        obtain ⟨rfl, hes⟩ := List.cons.inj he
        exact hall earlier e later hes hacc
    · rintro ⟨hall, hr'⟩
      refine ⟨r.settle h client event, takeEvent_eq_some_iff.mpr ⟨hall [] event events rfl, rfl⟩,
        ih.mpr ⟨fun earlier e later he hacc ↦ ?_, hr'⟩⟩
      exact hall (event :: earlier) e later (congrArg _ he) hacc

/-- An event is about one file. -/
theorem Replica.settle_of_ne (hf : event.fileName ≠ f) :
    (r.settle h client event).store f = r.store f := by
  rw [settle]
  split
  · rfl
  · rcases applyEvent_cases client r event with hsame | ⟨x, -, -, hsave⟩ | ⟨-, hremove⟩
    · rw [hsame]
    · rw [hsave]
      exact Store.save_of_ne _ _ (Ne.symm hf)
    · rw [hremove]
      exact Store.remove_of_ne _ (Ne.symm hf)

/-- A removal leaves nothing of the file. -/
theorem Replica.settle_remove (he : event.event = .remove) :
    (r.settle h client event).store event.fileName = none := by
  rw [settle, if_neg fun hnot ↦ not_accepts_of_remove r he hnot.1, applyEvent_remove _ _ he]
  exact Store.remove_self ..

/-- **Of a file whose last event is a removal the server is left with nothing.** -/
theorem Replica.settled_removed (hf : EndsRemoved events f) :
    (r.settled h client events).store f = none := by
  induction events using List.reverseRecOn with
  | nil => cases hf
  | append_singleton events event ih =>
    rw [settled, List.foldl_concat, ← settled]
    rw [endsRemoved_concat] at hf
    by_cases hevent : event.fileName = f
    · rw [if_pos hevent] at hf
      subst hevent
      exact settle_remove hf
    · rw [if_neg hevent] at hf
      rw [settle_of_ne hevent, ih hf]

end Batch

/-! ## The session

From the history to the session behind it, in both directions. -/

section Poll

variable {h h' : FileHost} {p q : Path} {c r : Replica} {changes : List Change}

/-- The session of the next poll, if the history leads to the machine `m` and the watcher `w`. -/
def pollStart (h h' : FileHost) (m : Machine) (w : Watcher) : PeerPair Bool Bool :=
  syncStart ⟨{ h with machine := m }, false⟩ h' w.getEvents.1

/-- The history is recorded, the session of the next poll comes to its end whatever the order of its
steps, and the server then has none of the files whose last event is a removal. -/
def Survived (h h' : FileHost) (q : Path) (changes : List Change) : Prop :=
  ∃ m w t, history h.syncDir changes h.machine {} = .ok (m, w) ∧
    (pollStart h h' m w).SettlesIn peers t ∧ t.Returned true true ∧
    ∀ f, EndsRemoved w.getEvents.1 f → t.right.host.view q f = none

/-- Where nothing stops the session: `c` is the replica of the client after the changes, `r` that of
the server before the session, and `events` is the batch. -/
structure Survivable (h h' : FileHost) (c r : Replica) (events : List FileEvent) : Prop where
  /-- What the server accepts when its turn comes was not removed later on. -/
  kept : ∀ earlier event later, events = earlier ++ event :: later →
    (r.settled h c.store earlier).Accepts event → ¬ EndsRemoved events event.fileName
  /-- The client can send it. -/
  sendable : ∀ earlier event later, events = earlier ++ event :: later →
    (r.settled h c.store earlier).Accepts event →
      ∀ x, c.store event.fileName = some x → h.CanSend x
  /-- The client can get what the server then has. -/
  obtainable : ∀ f, Obtainable h' (r.settled h c.store events).store c.store f

/-- Of the client only what its `read_file` reports matters. -/
theorem Survivable.congr {s : FileHost} {events : List FileEvent} (hs : Survivable s h' c r events)
    (hset : s.reported = h.reported) : Survivable h h' c r events := by
  have hann : s.announced = h.announced := by
    funext x
    rw [FileHost.announced, hset, FileHost.announced]
  have hsettle : Replica.settle s = Replica.settle h := by
    funext client r event
    rw [Replica.settle, hann, Replica.settle]
  have hsettled : Replica.settled s = Replica.settled h := by
    funext client r events
    rw [Replica.settled, hsettle, Replica.settled]
  obtain ⟨hkept, hsend, hget⟩ := hs
  rw [hsettled] at hkept hsend hget
  refine ⟨hkept, fun earlier event later he hacc x hx ↦ ?_, hget⟩
  rcases hsend earlier event later he hacc x hx with hzero | hcount
  · exact .inl (hann ▸ hzero)
  · exact .inr (hcount.congr hset.symm)

/-- **A batch of recorded events stops nothing if and only if** it is survivable. -/
theorem survivable_iff {dir : Name}
    (hname : ∀ change ∈ changes, filename (dir ++ change.file) = change.file) :
    (∃ r', r.takeEvents h (c.changed changes).store (eventsOf dir c changes) = some r' ∧
        ∀ f, Obtainable h' r'.store (c.changed changes).store f) ↔
      Survivable h h' (c.changed changes) r (eventsOf dir c changes) := by
  have hgone (earlier later : List FileEvent) (event : FileEvent)
      (he : eventsOf dir c changes = earlier ++ event :: later) :
      (c.changed changes).store event.fileName = none ↔
        EndsRemoved (eventsOf dir c changes) event.fileName :=
    changed_eq_none_iff hname ⟨event, by simp [he], rfl⟩
  constructor
  · rintro ⟨r', htake, hget⟩
    obtain ⟨hsend, rfl⟩ := Replica.takeEvents_eq_some_iff.mp htake
    refine ⟨fun earlier event later he hacc hrem ↦ ?_, fun earlier event later he hacc x hx ↦ ?_,
      hget⟩
    · obtain ⟨x, hx, -⟩ := hsend earlier event later he hacc
      rw [(hgone earlier later event he).mpr hrem] at hx
      cases hx
    · obtain ⟨y, hy, hcount⟩ := hsend earlier event later he hacc
      rw [hx] at hy
      cases hy
      exact hcount
  · intro hs
    refine ⟨_, Replica.takeEvents_eq_some_iff.mpr ⟨fun earlier event later he hacc ↦ ?_, rfl⟩,
      hs.obtainable⟩
    cases hx : (c.changed changes).store event.fileName with
    | none =>
      have hrem := (hgone earlier later event he).mp hx
      exact absurd hrem (hs.kept earlier event later he hacc)
    | some x => exact ⟨x, rfl, hs.sendable earlier event later he hacc x hx⟩

/-- The events of a history of the directory, which is flat throughout. -/
theorem names_of_plain (hc : h.Mirrors p c) (hplain : ∀ change ∈ changes, Plain change.file) :
    ∀ change ∈ changes, filename (h.syncDir ++ change.file) = change.file :=
  fun change hmem ↦ hc.flat.filename (hplain change hmem)

/-- A history that is survived is survivable. -/
theorem Survived.survivable (hs : Survived h h' q changes) (hc : h.Mirrors p c)
    (habs : isAbsolute h.syncDir = true) (hr : h'.Mirrors q r)
    (hplain : ∀ change ∈ changes, Plain change.file) :
    Survivable h h' (c.changed changes) r (eventsOf h.syncDir c changes) := by
  obtain ⟨m, w, t, hhist, ht, hret, -⟩ := hs
  obtain ⟨m', hhist', hm⟩ := history_eq hc hplain {}
  obtain ⟨rfl, rfl⟩ := Prod.mk.inj (Except.ok.inj (hhist.symm.trans hhist'))
  have hw := eventsOf_watched (s := { h with machine := m }) (c := c) habs hm.flat hplain
  have hgood := (sync_completes_iff (h := ⟨{ h with machine := m }, false⟩) hm hr hw).mp
    ⟨t, true, true, ht.ends, hret⟩
  exact ((survivable_iff (names_of_plain hc hplain)).mp hgood).congr rfl

/-- A history that is survivable is survived. -/
theorem Survivable.survived
    (hs : Survivable h h' (c.changed changes) r (eventsOf h.syncDir c changes))
    (hc : h.Mirrors p c) (habs : isAbsolute h.syncDir = true) (hr : h'.Mirrors q r)
    (hplain : ∀ change ∈ changes, Plain change.file) : Survived h h' q changes := by
  obtain ⟨m, hhist, hm⟩ := history_eq hc hplain {}
  have hw := eventsOf_watched (s := { h with machine := m }) (c := c) habs hm.flat hplain
  have hs' : Survivable { h with machine := m } h' (c.changed changes) r
    (eventsOf h.syncDir c changes) := hs.congr rfl
  obtain ⟨r', htake, hget⟩ := (survivable_iff (names_of_plain hc hplain)).mpr hs'
  obtain ⟨s, s', names, hserver, -, -, -, -, hend⟩ :=
    sync_endsIn (h := ⟨{ h with machine := m }, false⟩) hm hr hw htake hget
  refine ⟨m, _, _, hhist, hend.settlesIn, ⟨rfl, rfl⟩, fun f hf ↦ ?_⟩
  obtain ⟨-, rfl⟩ := Replica.takeEvents_eq_some_iff.mp htake
  rw [hserver.view_eq]
  exact Replica.settled_removed hf

/-- **A synchronisation survives a history of the directory if and only if** whatever the server
accepts was not removed later on, and what is to be sent either way is counted right. -/
theorem history_survived_iff (hc : h.Mirrors p c) (habs : isAbsolute h.syncDir = true)
    (hr : h'.Mirrors q r) (hplain : ∀ change ∈ changes, Plain change.file) :
    Survived h h' q changes ↔
      Survivable h h' (c.changed changes) r (eventsOf h.syncDir c changes) :=
  ⟨fun hs ↦ hs.survivable hc habs hr hplain, fun hs ↦ hs.survived hc habs hr hplain⟩

/-- A client that has no files yet, whose clock shows 1 at the first write. -/
def emptyClient : FileHost := .ofFiles (fun n ↦ n + 1) ['c'] [] countPackets

theorem mirrors_emptyClient : emptyClient.Mirrors [['c']] (emptyClient.replica [['c']]) :=
  FileHost.mirrors_ofFiles rfl (List.forall_mem_nil _)

theorem mirrors_blank : (blank ['s']).Mirrors [['s']] ((blank ['s']).replica [['s']]) :=
  FileHost.mirrors_ofFiles rfl (List.forall_mem_nil _)

/-- A file is created, removed and created again. -/
def recreation : List Change :=
  [.create ['f'] .threeBytes, .remove ['f'], .create ['f'] .threeBytes]

/-- What the recreation of the file leaves in a replica that had no files. -/
theorem recreated_store {s : Replica} (hs : ∀ f, s.store f = none) {f : Name} {x : File}
    (hx : (((s.save ['f'] .threeBytes).remove ['f']).save ['f'] .threeBytes).store f = some x) :
    f = ['f'] ∧ x = ⟨.threeBytes, s.clock 1⟩ := by
  rw [Replica.save_store, Replica.remove_store, Replica.save_store] at hx
  by_cases hf : f = ['f']
  · subst hf
    rw [Store.save_self] at hx
    cases hx
    exact ⟨rfl, rfl⟩
  · rw [Store.save_of_ne _ _ hf, Store.remove_of_ne _ hf, Store.save_of_ne _ _ hf, hs] at hx
    cases hx

/-- The replica of a host without files is empty. -/
theorem replica_ofFiles_nil (clock : Nat → Int) (d f : Name) :
    ((FileHost.ofFiles clock d [] countPackets).replica [d]).store f = none := by
  by_contra hx
  obtain ⟨x, hx⟩ := Option.ne_none_iff_exists'.mp hx
  exact List.not_mem_nil (FileHost.mem_of_replica_ofFiles hx)

/-- The server accepts both creations, and in the end it has the file as it is then. -/
theorem recreated_survived : Survived emptyClient (blank ['s']) [['s']] recreation := by
  refine (history_survived_iff mirrors_emptyClient rfl mirrors_blank (by decide)).mpr ?_
  have hclient : ∀ f x, ((emptyClient.replica [['c']]).changed recreation).store f = some x →
      f = ['f'] ∧ x = ⟨.threeBytes, 2⟩ := fun f x hx ↦ recreated_store (replica_ofFiles_nil _ _) hx
  have hserver : ∀ f x, (((blank ['s']).replica [['s']]).settled emptyClient
      ((emptyClient.replica [['c']]).changed recreation).store
      (eventsOf emptyClient.syncDir (emptyClient.replica [['c']]) recreation)).store f = some x →
      f = ['f'] ∧ x = ⟨.threeBytes, 1⟩ := fun f x hx ↦ recreated_store (replica_ofFiles_nil _ _) hx
  have hcount : WellCounted emptyClient .threeBytes :=
    wellCounted_of_lt rfl (by decide) (by decide)
  refine ⟨fun earlier event later he _ ↦ ?_, fun earlier event later _ _ x hx ↦ ?_, fun f x hx ↦ ?_⟩
  · have hkept : ∀ event ∈ eventsOf emptyClient.syncDir (emptyClient.replica [['c']]) recreation,
        ¬ EndsRemoved (eventsOf emptyClient.syncDir (emptyClient.replica [['c']]) recreation)
          event.fileName := by decide
    exact hkept event (by simp [he])
  · obtain ⟨-, rfl⟩ := hclient _ x hx
    exact .inr hcount
  · obtain ⟨rfl, rfl⟩ := hserver f x hx
    exact ⟨by decide, fun hlate ↦ absurd hlate (by decide)⟩

/-- A file that is removed and stays away is not survived: the server accepts its creation, and
`read_file` throws. -/
theorem removal_not_survived :
    ¬ ∀ changes, (∀ change ∈ changes, Plain change.file) →
      Survived emptyClient (blank ['s']) [['s']] changes := by
  intro hall
  have hplain : ∀ change ∈ [Change.create ['f'] .threeBytes, .remove ['f']],
      Plain change.file := by decide
  have hs := (hall _ hplain).survivable mirrors_emptyClient rfl mirrors_blank hplain
  exact hs.kept [] _ _ rfl (by decide) (by decide)

end Poll

end Bropdox
