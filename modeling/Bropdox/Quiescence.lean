import Bropdox.Devices

/-!
# A synchronisation after a synchronisation

A file that `get_file` writes carries the time at which it was written, and the watcher of the
client records it like a file the user has written.  So a synchronisation leaves events behind, and
the next one starts from these.  This file asks when that next session has nothing to do.

Client and server share one clock: the server has written whatever it writes in a session before the
client writes anything, and `noon` is the time in between.

## What is here

* `SyncIdle` says that a session moves nothing: it ends with both sides returned, and the stores and
  the readings of the clock are as before.
* `Completed` is a first session that has ended with both sides returned and nothing misread, and
  `Recorded` the events of a watcher for what was written since.
* `takeEvents_written` and the lemmas before it say what events do to the times of the server's
  files.
* `Outcome` is what the first session leaves behind, in particular which files the client has taken
  over and when (`Outcome.written`).
* `StampedAlike` is the condition: what the first session has written on the client carries the time
  of the server's copy.
* `next_sync_idle_iff`: the next session is idle if and only if this is so.  Otherwise the server
  accepts the client's copy as a later edit, and the file goes back to where it came from
  (`Outcome.not_idle`).
* `idle_while_clock_stands` and `copy_sent_back` are one file on a clock that stands still and on
  one that moves.
-/

set_option autoImplicit false

namespace Bropdox

open FileSystem Session

/-- A session that moves nothing: it ends with both sides returned, the stores are as before, and so
are the readings of the clocks to come, one of which is used by every file that is written. -/
def SyncIdle (h : Client.Host) (h' : FileHost) (events : List FileEvent) (p q : Path) : Prop :=
  ∃ t, (syncStart h h' events).EndsIn peers t ∧ t.Returned true true ∧
    t.left.host.files.Mirrors p (h.files.replica p) ∧ t.right.host.Mirrors q (h'.replica q)

/-- A synchronisation of any two flat directories with any events has been completed in `t`: both
sides have returned, and no datagram was misread on the way (a session in which one is waited for as
something else than it was sent as does not get on, see `typed`). -/
structure Completed (h : Client.Host) (h' : FileHost) (events : List FileEvent) (p q : Path)
    (noon now : Int) (t : PeerPair Bool Bool) : Prop where
  /-- The sync directory of the client is flat. -/
  client : FlatDir h.files.machine h.files.syncDir p
  /-- The sync directory of the client is known by an absolute path. -/
  absolute : isAbsolute h.files.syncDir = true
  /-- The sync directory of the server is flat. -/
  server : FlatDir h'.machine h'.syncDir q
  /-- `read_file` is that of the source on the client. -/
  reported : h.files.reported = countPackets
  /-- The server's `read_file` is that of the source. -/
  serverReported : h'.reported = countPackets
  /-- The events are those of a watcher. -/
  watched : ∀ event ∈ events, Watched h.files p event
  /-- The server's files were written before noon. -/
  past : ∀ f x, h'.view q f = some x → x.modifiedTime ≤ noon
  /-- What the server writes is written before noon. -/
  morning : ∀ n, h'.machine.clock n ≤ noon
  /-- What the client writes is written after noon, and before now. -/
  afternoon : ∀ n, noon ≤ h.files.machine.clock n ∧ h.files.machine.clock n ≤ now
  /-- The session has ended. -/
  ends : (syncStart h h' events).EndsIn peers t
  /-- Both programs have returned. -/
  returned : ∃ a b, t.Returned a b

/-- The events of a watcher on the host `after`, for what was written since it was `before`. -/
structure Recorded (before after : FileHost) (p : Path) (events : List FileEvent) : Prop where
  /-- Every event is about a file that was written, and carries its new time. -/
  sound : ∀ event ∈ events, ∃ f y, after.view p f = some y ∧ before.view p f ≠ some y ∧
    (event.event = .create ∨ event.event = .modify) ∧
    event.file = ⟨after.syncDir ++ f, y.size, y.modifiedTime⟩
  /-- Every file that was written has an event. -/
  complete : ∀ f y, after.view p f = some y → before.view p f ≠ some y →
    ∃ event ∈ events, event.file.name = after.syncDir ++ f

/-! ## What events do to times

The server writes a file that it accepts at the reading of its own clock, so nothing that it has is
earlier than the event that brought it. -/

namespace Replica

variable {h : FileHost} {client : Store} {r r' : Replica} {events : List FileEvent} {t : Int}

/-- No file is later than `t`, nor will one be that is written now. -/
structure Until (r : Replica) (t : Int) : Prop where
  /-- No file is later. -/
  store : ∀ f x, r.store f = some x → x.modifiedTime ≤ t
  /-- No reading of the clock is. -/
  clock : ∀ n, r.clock n ≤ t

theorem Until.takeEvent {event : FileEvent} (hr : r.Until t)
    (htake : r.takeEvent h client event = some r') : r'.Until t := by
  rcases takeEvent_cases htake with rfl | ⟨x, -, -, rfl⟩ | ⟨-, rfl⟩
  · exact hr
  · refine ⟨fun f y hy ↦ ?_, fun n ↦ hr.clock (n + 1)⟩
    by_cases hf : f = event.fileName
    · subst hf
      rw [save_store, Store.save_self] at hy
      cases hy
      exact hr.clock 0
    · rw [save_store, Store.save_of_ne _ _ hf] at hy
      exact hr.store f y hy
  · refine ⟨fun f y hy ↦ ?_, hr.clock⟩
    by_cases hf : f = event.fileName
    · subst hf
      simp at hy
    · rw [remove_store, Store.remove_of_ne _ hf] at hy
      exact hr.store f y hy

theorem Until.takeEvents (hr : r.Until t) (htake : r.takeEvents h client events = some r') :
    r'.Until t := by
  induction events generalizing r with
  | nil =>
    cases htake
    exact hr
  | cons event events ih =>
    obtain ⟨s, hone, hrest⟩ := Option.bind_eq_some_iff.mp htake
    exact ih (hr.takeEvent hone) hrest

/-- Where no event is accepted and none is a removal, nothing happens. -/
theorem takeEvents_eq_self
    (hstale : ∀ event ∈ events, ¬ r.Accepts event ∧ event.event ≠ .remove) :
    r.takeEvents h client events = some r := by
  induction events with
  | nil => rfl
  | cons event events ih =>
    obtain ⟨⟨hacc, hremove⟩, hrest⟩ := List.forall_mem_cons.mp hstale
    rw [takeEvents, takeEvent, if_neg hacc, applyEvent_stale _ hacc hremove, Option.bind_some,
      ih hrest]

/-- After one event the file has been written at `t` or later, or an event that is later than the
server's copy is still to come. -/
theorem takeEvent_written {f : Name} {event : FileEvent}
    (hkind : event.event = .create ∨ event.event = .modify)
    (hsent : ∃ x, client event.fileName = some x ∧ h.announced x.contents ≠ 0)
    (hclock : ∀ n, t ≤ r.clock n) (hone : r.takeEvent h client event = some r')
    (hlater : t ≤ r.store.modifiedTime f ∨ ∃ e ∈ event :: events, e.fileName = f ∧
      e.file.modifiedTime > r.store.modifiedTime f) :
    (∀ n, t ≤ r'.clock n) ∧ (t ≤ r'.store.modifiedTime f ∨ ∃ e ∈ events, e.fileName = f ∧
      e.file.modifiedTime > r'.store.modifiedTime f) := by
  obtain ⟨x, hx, hpos⟩ := hsent
  by_cases hacc : r.Accepts event
  · -- the file of the event is saved
    obtain rfl : r' = r.save event.fileName x.contents := by
      rw [takeEvent, if_pos hacc, hx] at hone
      simp only [if_neg hpos] at hone
      split at hone
      · exact (Option.some_inj.mp hone).symm
      · cases hone
    refine ⟨fun n ↦ hclock (n + 1), ?_⟩
    rw [save_store]
    by_cases hf : f = event.fileName
    · subst hf
      left
      rw [Store.modifiedTime_save_self]
      exact hclock 0
    · rw [Store.modifiedTime_save_of_ne _ _ hf]
      refine hlater.imp_right ?_
      rintro ⟨e, he, hname, htime⟩
      rcases List.mem_cons.mp he with rfl | he
      · exact absurd hname.symm hf
      · exact ⟨e, he, hname, htime⟩
  · -- nothing happens
    obtain rfl : r' = r := by
      rw [takeEvent, if_neg hacc, applyEvent_stale _ hacc (ne_remove_of_write hkind)] at hone
      exact (Option.some_inj.mp hone).symm
    refine ⟨hclock, hlater.imp_right ?_⟩
    rintro ⟨e, he, hname, htime⟩
    rcases List.mem_cons.mp he with rfl | he
    · subst hname
      exact absurd ⟨hkind, htime⟩ hacc
    · exact ⟨e, he, hname, htime⟩

/-- **An event that is later than the server's copy has the file written**, at a time the clock
shows from `t` on, whatever the other events do before and after. -/
theorem takeEvents_written {f : Name}
    (hwrites : ∀ event ∈ events, (event.event = .create ∨ event.event = .modify) ∧
      ∃ x, client event.fileName = some x ∧ h.announced x.contents ≠ 0)
    (hclock : ∀ n, t ≤ r.clock n) (htake : r.takeEvents h client events = some r')
    (hlater : t ≤ r.store.modifiedTime f ∨ ∃ event ∈ events, event.fileName = f ∧
      event.file.modifiedTime > r.store.modifiedTime f) :
    t ≤ r'.store.modifiedTime f := by
  induction events generalizing r with
  | nil =>
    cases htake
    rcases hlater with hlater | ⟨event, hevent, -⟩
    · exact hlater
    · cases hevent
  | cons event events ih =>
    obtain ⟨s, hone, hrest⟩ := Option.bind_eq_some_iff.mp htake
    obtain ⟨⟨hkind, hsent⟩, hwrites⟩ := List.forall_mem_cons.mp hwrites
    obtain ⟨hclock, hlater⟩ := takeEvent_written hkind hsent hclock hone hlater
    exact ih hwrites hclock hrest hlater

end Replica

/-! ## The first session

What is known of the two hosts when the first session is over. -/

section FirstSession

variable {h : Client.Host} {h' : FileHost} {events : List FileEvent} {p q : Path} {noon now : Int}
  {t : PeerPair Bool Bool}

/-- What a completed session leaves behind. -/
structure Outcome (h : Client.Host) (h' : FileHost) (p q : Path) (noon : Int)
    (t : PeerPair Bool Bool) (r : Replica) (names : List Name) : Prop where
  /-- What the server has. -/
  server : t.right.host.Mirrors q r
  /-- What the client has. -/
  client : t.left.host.files.Mirrors p ((h.files.replica p).pull r.store names)
  /-- The settings of the server are what they were. -/
  serverSettings : h'.SameSettings t.right.host
  /-- The settings of the client are as before. -/
  settings : h.files.SameSettings t.left.host.files
  /-- The client was offered every file. -/
  lists : Replica.Lists names r.store
  /-- The server wrote its files before noon. -/
  until_noon : r.Until noon
  /-- The client could get every file. -/
  obtainable : ∀ f, Obtainable h' r.store (h.files.view p) f

theorem Completed.outcome (hs : Completed h h' events p q noon now t) :
    ∃ r names, Outcome h h' p q noon t r names := by
  have hc : h.files.Mirrors p (h.files.replica p) := ⟨hs.client, rfl, rfl⟩
  have hr : h'.Mirrors q (h'.replica q) := ⟨hs.server, rfl, rfl⟩
  obtain ⟨a, b, hret⟩ := hs.returned
  obtain ⟨r, names, htake, hm, hset, hm', hset', hlists⟩ :=
    sync_returned hc hr hs.watched hs.ends hret
  obtain ⟨r', htake', hget⟩ := (sync_completes_iff hc hr hs.watched).mp ⟨t, a, b, hs.ends, hret⟩
  obtain rfl : r' = r := Option.some_inj.mp (htake'.symm.trans htake)
  have huntil : (h'.replica q).Until noon := ⟨hs.past, hs.morning⟩
  exact ⟨r', names, hm, hm', hset, hset', hlists, huntil.takeEvents htake, hget⟩

variable {r : Replica} {names : List Name}

/-- **What the first session has written on the client**: the server's copy, with a time of the
afternoon. -/
theorem Outcome.written (ho : Outcome h h' p q noon t r names)
    (hs : Completed h h' events p q noon now t) {f : Name} {y : File}
    (hy : t.left.host.files.view p f = some y) (hnew : h.files.view p f ≠ some y) :
    ∃ x, r.store f = some x ∧ y.contents = x.contents ∧ WellCounted h' x.contents ∧
      x.modifiedTime ≤ noon ∧ noon ≤ y.modifiedTime ∧ y.modifiedTime ≤ now := by
  rw [ho.client.view_eq] at hy
  have hpulled := ho.lists.pulled (h.files.replica p) f
  cases hx : r.store f with
  | none =>
    simp only [hx] at hpulled
    exact absurd (hpulled.symm.trans hy) hnew
  | some x =>
    simp only [hx] at hpulled
    by_cases hlate : x.modifiedTime > (h.files.replica p).store.modifiedTime f
    · obtain ⟨n, hn⟩ := Replica.pull_of_later ho.lists.nodup ((ho.lists.mem_iff f).mpr ⟨x, hx⟩) hx
        hlate
      obtain rfl := Option.some_inj.mp (hn.symm.trans hy)
      have hclock := hs.afternoon n
      exact ⟨x, rfl, rfl, (ho.obtainable f x hx).2 hlate, ho.until_noon.store f x hx, hclock⟩
    · rw [if_neg hlate] at hpulled
      exact absurd (hpulled.symm.trans hy) hnew

/-- After the first session the server has no copy that is later than the client's. -/
theorem Outcome.not_later (ho : Outcome h h' p q noon t r names)
    (hs : Completed h h' events p q noon now t) {f : Name} {x : File} (hx : r.store f = some x) :
    ¬ x.modifiedTime > (t.left.host.files.view p).modifiedTime f := by
  rw [ho.client.view_eq]
  by_cases hlate : x.modifiedTime > (h.files.replica p).store.modifiedTime f
  · obtain ⟨n, hn⟩ := Replica.pull_of_later ho.lists.nodup ((ho.lists.mem_iff f).mpr ⟨x, hx⟩) hx
      hlate
    rw [Store.modifiedTime, hn]
    exact not_lt.mpr ((ho.until_noon.store f x hx).trans (hs.afternoon n).1)
  · have hsame : ¬ r.store.modifiedTime f > (h.files.replica p).store.modifiedTime f := by
      rw [Store.modifiedTime, hx]
      exact hlate
    rw [Store.modifiedTime, Replica.pull_of_not_later ho.lists.nodup hsame]
    exact hlate

end FirstSession

/-! ## The next session

The events are those of the files the client has taken over. -/

section NextSession

variable {h : Client.Host} {h' : FileHost} {events : List FileEvent} {p q : Path} {noon now : Int}
  {t : PeerPair Bool Bool} {r : Replica} {names : List Name}

/-- What the first session has written on the client carries the time of the server's copy. -/
def StampedAlike (h : Client.Host) (p q : Path) (t : PeerPair Bool Bool) : Prop :=
  ∀ f x y, t.right.host.view q f = some x → t.left.host.files.view p f = some y →
    h.files.view p f ≠ some y → y.modifiedTime = x.modifiedTime

/-- The client at the beginning of the next session. -/
def nextClient (t : PeerPair Bool Bool) (clock : Nat → Int) : Client.Host :=
  ⟨t.left.host.files.timed clock, false⟩

/-- The server at the beginning of the next session. -/
def nextServer (t : PeerPair Bool Bool) (clock : Nat → Int) : FileHost := t.right.host.timed clock

theorem Outcome.nextClient_mirrors (ho : Outcome h h' p q noon t r names) (clock : Nat → Int) :
    (nextClient t clock).files.Mirrors p ((nextClient t clock).files.replica p) :=
  FileHost.mirrors_timed ho.client.flat clock

theorem Outcome.nextServer_mirrors (ho : Outcome h h' p q noon t r names) (clock : Nat → Int) :
    (nextServer t clock).Mirrors q ((nextServer t clock).replica q) :=
  FileHost.mirrors_timed ho.server.flat clock

/-- The name of a file in a recorded event. -/
theorem Outcome.fileName_eq (ho : Outcome h h' p q noon t r names) {f : Name} {y : File}
    (hy : t.left.host.files.view p f = some y) {event : FileEvent}
    (hname : event.file.name = t.left.host.files.syncDir ++ f) : event.fileName = f := by
  rw [FileEvent.fileName, hname]
  exact ho.client.flat.filename (ho.client.flat.plain hy)

/-- What a watcher has recorded are the events of a watcher. -/
theorem Outcome.watched (ho : Outcome h h' p q noon t r names)
    (hs : Completed h h' events p q noon now t) {later : List FileEvent}
    (hrec : Recorded h.files t.left.host.files p later) (clock : Nat → Int) :
    ∀ event ∈ later, Watched (nextClient t clock).files p event := by
  intro event hevent
  obtain ⟨f, y, hy, -, hkind, hfile⟩ := hrec.sound event hevent
  have hname : event.file.name = t.left.host.files.syncDir ++ f := by rw [hfile]
  have hplain : Plain f := ho.client.flat.plain hy
  have heq := ho.fileName_eq hy hname
  refine ⟨hkind.imp_right .inl, ?_, heq ▸ hplain, ?_⟩
  · rw [hname, ho.settings.syncDir]
    exact isAbsolute_append hs.absolute _
  · rw [heq, hname]
    exact (FileHost.flatDir_timed ho.client.flat clock).resolve hplain

/-- **Where the times agree the next session has nothing to do.** -/
theorem Outcome.idle (ho : Outcome h h' p q noon t r names)
    (hs : Completed h h' events p q noon now t) {later : List FileEvent}
    (hrec : Recorded h.files t.left.host.files p later) (clock serverClock : Nat → Int)
    (halike : StampedAlike h p q t) :
    SyncIdle (nextClient t clock) (nextServer t serverClock) later p q := by
  have hview : (nextServer t serverClock).view q = r.store := ho.server.view_eq
  have hstale : ∀ event ∈ later,
      ¬ ((nextServer t serverClock).replica q).Accepts event ∧ event.event ≠ .remove := by
    intro event hevent
    obtain ⟨f, y, hy, hnew, hkind, hfile⟩ := hrec.sound event hevent
    obtain ⟨x, hx, -⟩ := ho.written hs hy hnew
    have htime : event.file.modifiedTime = x.modifiedTime := by
      rw [hfile]
      exact halike f x y (ho.server.view_eq ▸ hx) hy hnew
    constructor
    · rintro ⟨-, hlate⟩
      rw [ho.fileName_eq hy (by rw [hfile]), htime] at hlate
      have hcopy : ((nextServer t serverClock).replica q).store.modifiedTime f =
        x.modifiedTime := by
        show ((nextServer t serverClock).view q).modifiedTime f = _
        rw [hview, Store.modifiedTime, hx]
        rfl
      exact absurd hlate (by rw [hcopy]; exact lt_irrefl _)
    · rcases hkind with he | he <;> rw [he] <;> decide
  have hget : ∀ f, Obtainable (nextServer t serverClock)
      ((nextServer t serverClock).replica q).store
        ((nextClient t clock).files.replica p).store f := by
    intro f x hx
    have hx' : r.store f = some x := hview ▸ hx
    exact ⟨(ho.obtainable f x hx').1, fun hlate ↦ absurd hlate (ho.not_later hs hx')⟩
  obtain ⟨s, s', names', hm, -, hm', -, -, hend⟩ := sync_endsIn (h := nextClient t clock)
    (ho.nextClient_mirrors clock) (ho.nextServer_mirrors serverClock) (ho.watched hs hrec clock)
    (Replica.takeEvents_eq_self hstale) hget
  refine ⟨_, hend, ⟨rfl, rfl⟩, ?_, hm⟩
  rwa [Replica.pull_eq_self fun f x hx ↦ ho.not_later hs (hview ▸ hx)] at hm'

/-- **Where the times do not agree, a file goes back to the server.** -/
theorem Outcome.not_idle (ho : Outcome h h' p q noon t r names)
    (hs : Completed h h' events p q noon now t) {later : List FileEvent}
    (hrec : Recorded h.files t.left.host.files p later) (clock : Nat → Int)
    {serverClock : Nat → Int}
    (hlater : ∀ n, now ≤ serverClock n) {f : Name} {x y : File}
    (hx : r.store f = some x) (hy : t.left.host.files.view p f = some y)
    (hnew : h.files.view p f ≠ some y) (hne : y.modifiedTime ≠ x.modifiedTime) :
    ¬ SyncIdle (nextClient t clock) (nextServer t serverClock) later p q := by
  rintro ⟨t', ht', hret, -, hserver⟩
  have hview : (nextServer t serverClock).view q = r.store := ho.server.view_eq
  obtain ⟨x', hx', -, -, hnoon, hafter, hnow⟩ := ho.written hs hy hnew
  obtain rfl : x' = x := Option.some_inj.mp (hx'.symm.trans hx)
  obtain ⟨event, hevent, hname⟩ := hrec.complete f y hy hnew
  obtain ⟨f', y', hy', -, hkind, hfile⟩ := hrec.sound event hevent
  obtain rfl : f' = f :=
    (ho.fileName_eq hy' (by rw [hfile])).symm.trans (ho.fileName_eq hy hname)
  obtain rfl : y' = y := Option.some_inj.mp (hy'.symm.trans hy)
  obtain ⟨r'', names', htake, hm, -⟩ := sync_returned (h := nextClient t clock)
    (ho.nextClient_mirrors clock) (ho.nextServer_mirrors serverClock) (ho.watched hs hrec clock)
    ht' hret
  have hwrites : ∀ event ∈ later, (event.event = .create ∨ event.event = .modify) ∧
      ∃ z, ((nextClient t clock).files.replica p).store event.fileName = some z ∧
        (nextClient t clock).files.announced z.contents ≠ 0 := by
    intro event hevent
    obtain ⟨g, z, hz, hznew, hkind, hfile⟩ := hrec.sound event hevent
    obtain ⟨w, -, hcontents, hcount, -⟩ := ho.written hs hz hznew
    have hreported : (nextClient t clock).files.reported = h'.reported := by
      rw [hs.serverReported, ← hs.reported]
      exact ho.settings.reported
    refine ⟨hkind, z, ?_, hcontents ▸ (hcount.congr hreported).pos⟩
    rw [ho.fileName_eq hz (by rw [hfile])]
    exact hz
  -- the session that does nothing leaves the copy as old as it was
  have hold : ((nextServer t serverClock).view q).modifiedTime f' = x'.modifiedTime := by
    rw [hview, Store.modifiedTime, hx]
    rfl
  have hcopy : r''.store.modifiedTime f' = x'.modifiedTime := by
    rw [← hm.view_eq, hserver.view_eq]
    exact hold
  have hlate : event.file.modifiedTime > x'.modifiedTime := by
    rw [hfile]
    exact lt_of_le_of_ne (hnoon.trans hafter) (Ne.symm hne)
  have hwritten := Replica.takeEvents_written (f := f') hwrites hlater htake
    (.inr ⟨event, hevent, ho.fileName_eq hy hname, lt_of_eq_of_lt hold hlate⟩)
  rw [hcopy] at hwritten
  rw [hfile] at hlate
  exact absurd (hwritten.trans_lt hlate) (not_lt.mpr hnow)

/-- **A synchronisation is idempotent exactly if it has stamped every file it has written on the
client with the time of the server's copy.** -/
theorem next_sync_idle_iff (hs : Completed h h' events p q noon now t) {later : List FileEvent}
    (hrec : Recorded h.files t.left.host.files p later) (clock : Nat → Int)
    {serverClock : Nat → Int}
    (hlater : ∀ n, now ≤ serverClock n) :
    SyncIdle (nextClient t clock) (nextServer t serverClock) later p q ↔ StampedAlike h p q t := by
  obtain ⟨r, names, ho⟩ := hs.outcome
  constructor
  · intro hidle f x y hx hy hnew
    by_contra hne
    exact ho.not_idle hs hrec clock hlater (ho.server.view_eq ▸ hx) hy hnew hne hidle
  · exact ho.idle hs hrec clock serverClock

end NextSession

/-! ## One file, taken over and taken back

A client downloads a file, and its watcher sees the copy being written.  The next session sends the
copy back, unless it has the time of the original. -/

/-- A client without files, whose clock shows `c` in the afternoon. -/
def downloader (c : Int) : Client.Host := ⟨.ofFiles (fun _ ↦ c) ['c'] [] countPackets, false⟩

/-- A server with a file `f` of time 1. -/
def keeper : FileHost := .ofFiles (fun _ ↦ 1) ['s'] [(['f'], ⟨.threeBytes, 1⟩)] countPackets

/-- The event of the client's copy. -/
def copyEvent (c : Int) : FileEvent := ⟨⟨['/', 'c', '/', 'f'], 3, c⟩, .modify⟩

theorem keeper_file {f : Name} {x : File} (hx : (keeper.replica [['s']]).store f = some x) :
    f = ['f'] ∧ x = ⟨.threeBytes, 1⟩ :=
  Prod.mk.inj (List.mem_singleton.mp (FileHost.mem_of_replica_ofFiles hx))

/-- The client takes the file over. -/
theorem file_taken {c : Int} (hc : 1 ≤ c) :
    ∃ t, Completed (downloader c) keeper [] [['c']] [['s']] 1 c t ∧
      t.left.host.files.syncDir = ['/', 'c', '/'] ∧
      t.left.host.files.view [['c']] ['f'] = some ⟨.threeBytes, c⟩ ∧
      (∀ f y, t.left.host.files.view [['c']] f = some y → f = ['f']) ∧
      t.right.host.view [['s']] ['f'] = some ⟨.threeBytes, 1⟩ := by
  have hclient : (downloader c).files.Mirrors [['c']] ((downloader c).files.replica [['c']]) :=
    FileHost.mirrors_ofFiles rfl (List.forall_mem_nil _)
  have hserver : keeper.Mirrors [['s']] (keeper.replica [['s']]) :=
    FileHost.mirrors_ofFiles rfl (by decide)
  have hfile : (keeper.replica [['s']]).store ['f'] = some ⟨.threeBytes, 1⟩ := rfl
  have hget : ∀ f, Obtainable keeper (keeper.replica [['s']]).store
      ((downloader c).files.replica [['c']]).store f := by
    intro f x hx
    obtain ⟨rfl, rfl⟩ := keeper_file hx
    exact ⟨by decide, fun _ ↦ wellCounted_of_lt rfl (by decide) (by decide)⟩
  have hw : ∀ event ∈ ([] : List FileEvent), Watched (downloader c).files [['c']] event :=
    List.forall_mem_nil _
  obtain ⟨s, s', names, hm, -, hm', hset, hlists, hend⟩ :=
    sync_endsIn (h := downloader c) hclient hserver hw rfl hget
  have hold : ∀ f, ((downloader c).files.replica [['c']]).store f = none := by
    intro f
    cases hf : ((downloader c).files.replica [['c']]).store f with
    | none => rfl
    | some y => exact absurd (FileHost.mem_of_replica_ofFiles hf) List.not_mem_nil
  have hlate : (1 : Int) > ((downloader c).files.replica [['c']]).store.modifiedTime ['f'] := by
    rw [Store.modifiedTime, hold]
    decide
  obtain ⟨n, hn⟩ := Replica.pull_of_later hlists.nodup ((hlists.mem_iff _).mpr ⟨_, hfile⟩)
    hfile hlate
  refine ⟨_, ⟨hclient.flat, rfl, hserver.flat, rfl, rfl, List.forall_mem_nil _, ?_, fun _ ↦ le_rfl,
    fun _ ↦ ⟨hc, le_rfl⟩, hend, true, true, rfl, rfl⟩, hset.syncDir, ?_, fun f y hy ↦ ?_, ?_⟩
  · intro f x hx
    obtain ⟨-, rfl⟩ := keeper_file hx
    exact le_rfl
  · rw [hm'.view_eq]
    exact hn
  · rw [hm'.view_eq] at hy
    have hpulled := hlists.pulled ((downloader c).files.replica [['c']]) f
    cases hx : (keeper.replica [['s']]).store f with
    | none =>
      simp only [hx] at hpulled
      rw [hy, hold] at hpulled
      cases hpulled
    | some x => exact (keeper_file hx).1
  · rw [hm.view_eq]
    exact hfile

theorem recorded_copy {c : Int} {g : FileHost} (hdir : g.syncDir = ['/', 'c', '/'])
    (hf : g.view [['c']] ['f'] = some ⟨.threeBytes, c⟩)
    (honly : ∀ f y, g.view [['c']] f = some y → f = ['f']) :
    Recorded (downloader c).files g [['c']] [copyEvent c] := by
  have hnew : ∀ y, (downloader c).files.view [['c']] ['f'] ≠ some y := by
    intro y hy
    cases hy
  refine ⟨fun event hevent ↦ ?_, fun f y hy _ ↦ ?_⟩
  · obtain rfl := List.mem_singleton.mp hevent
    refine ⟨['f'], _, hf, hnew _, .inr rfl, ?_⟩
    rw [hdir]
    rfl
  · obtain rfl := honly f y hy
    refine ⟨_, List.mem_singleton_self _, ?_⟩
    rw [hdir]
    rfl

/-- If the clock stands still, the next session has nothing to do. -/
theorem idle_while_clock_stands :
    ∃ t, Completed (downloader 1) keeper [] [['c']] [['s']] 1 1 t ∧
      SyncIdle (nextClient t fun _ ↦ 1) (nextServer t fun _ ↦ 1) [copyEvent 1] [['c']] [['s']] := by
  obtain ⟨t, hs, hdir, hf, honly, hx⟩ := file_taken (le_refl 1)
  refine ⟨t, hs, (next_sync_idle_iff hs (recorded_copy hdir hf honly) _ fun _ ↦ le_rfl).mpr ?_⟩
  intro f x y hx' hy _
  obtain rfl := honly f y hy
  rw [hx] at hx'
  rw [hf] at hy
  cases hx'
  cases hy
  rfl

/-- If the client writes its copy later than the server has written its own, the next session sends
the file back. -/
theorem copy_sent_back :
    ∃ t, Completed (downloader 2) keeper [] [['c']] [['s']] 1 2 t ∧
      Recorded (downloader 2).files t.left.host.files [['c']] [copyEvent 2] ∧
      ¬ SyncIdle (nextClient t fun _ ↦ 2) (nextServer t fun _ ↦ 2) [copyEvent 2]
        [['c']] [['s']] := by
  obtain ⟨t, hs, hdir, hf, honly, hx⟩ := file_taken (c := 2) (by decide)
  have hrec := recorded_copy hdir hf honly
  obtain ⟨r, names, ho⟩ := hs.outcome
  have hnew : (downloader 2).files.view [['c']] ['f'] ≠ some ⟨.threeBytes, 2⟩ := by
    intro h
    cases h
  exact ⟨t, hs, hrec, ho.not_idle hs hrec _ (fun _ ↦ le_rfl) (ho.server.view_eq ▸ hx) hf hnew
    (by decide)⟩

end Bropdox
