import Bropdox.Sync

/-!
# Several devices and one server

The devices of one user are edited and synchronised in any order, and the question is whose edit of
a file is the one that survives.

The server takes an edit over when it was made after the server *wrote its copy*.  That is not after
the edit the copy came from was made, and the difference can cost a user the later of two edits.

## What is here

* `World` is the devices, each with the events its watcher has queued, the server, and the one clock
  they share.  Beside the hosts a world remembers what was edited so far, and which of these edits
  have reached the server.
* `World.Step` is an edit of a file on a device or a complete synchronisation of a device.  A
  synchronisation is complete (`World.Syncs`) if both programs return and no datagram is read as
  what it is not.
* `World.Reachable` are the worlds that these steps lead to, from devices that have flat sync
  directories and no events.
* `NewestEditWins` is the property of one session, and `Deliverable` the condition on the world
  before it.
* `World.Good` is the invariant: a queued event comes from an edit that nothing on its device has
  overwritten.  `World.Good.synced` says what a complete synchronisation does, from the two
  programs, and `Reachable.good` that every reachable world is good.
* `newest_edit_wins_iff`: in every reachable world and every complete session the newest edit wins
  if and only if it is deliverable.
* `first_edit_wins` and `later_edit_lost` are a run of two devices in which the first edit arrives
  and the second, later one is lost.
-/

set_option autoImplicit false

namespace Bropdox

open FileSystem Session

namespace FileHost

/-- The host with other readings of the clock to come. -/
def timed (h : FileHost) (clock : Nat → Int) : FileHost :=
  { h with machine := { h.machine with clock := clock } }

/-- The user writes a file at time `t`. -/
def edit (h : FileHost) (p : Path) (f : Name) (c : Contents) (t : Int) : FileHost :=
  { h with machine := (h.timed fun _ ↦ t).machine.put (p ++ [f]) c }

/-- The event the watcher queues when the user has written a file at time `t`. -/
def modifyEvent (h : FileHost) (f : Name) (c : Contents) (t : Int) : FileEvent :=
  ⟨⟨h.syncDir ++ f, c.bytes.length, t⟩, .modify⟩

variable {h : FileHost} {p : Path} {f : Name}

/-- Only the clock matters to what a clock shows. -/
theorem flatDir_timed (hd : FlatDir h.machine h.syncDir p) (clock : Nat → Int) :
    FlatDir (h.timed clock).machine (h.timed clock).syncDir p :=
  ⟨hd.trailing, hd.ne_net, hd.resolves, hd.flat⟩

theorem mirrors_timed (hd : FlatDir h.machine h.syncDir p) (clock : Nat → Int) :
    (h.timed clock).Mirrors p ⟨h.view p, clock⟩ :=
  ⟨flatDir_timed hd clock, rfl, rfl⟩

theorem sameSettings_timed (h : FileHost) (clock : Nat → Int) : h.SameSettings (h.timed clock) :=
  ⟨rfl, rfl⟩

theorem flatDir_edit (hd : FlatDir h.machine h.syncDir p) (hf : Plain f) (c : Contents) (t : Int) :
    FlatDir (h.edit p f c t).machine (h.edit p f c t).syncDir p :=
  (flatDir_timed hd fun _ ↦ t).put hf c

theorem view_edit (c : Contents) (t : Int) :
    (h.edit p f c t).view p = (h.view p).save f ⟨c, t⟩ :=
  Machine.view_put ..

end FileHost

/-! ## The devices

The world, its steps, and what is said of a session. -/

/-- A device of the user, between two synchronisations. -/
structure Device where
  /-- The files of the device. -/
  files : FileHost
  /-- Where its sync directory is. -/
  dir : Path
  /-- The events the watcher has queued. -/
  pending : List FileEvent

/-- The files in its sync directory. -/
def Device.store (d : Device) : Store := d.files.view d.dir

/-- The user writes a file on the device. -/
def Device.edit (d : Device) (f : Name) (c : Contents) (t : Int) : Device where
  files := d.files.edit d.dir f c t
  dir := d.dir
  pending := d.pending ++ [d.files.modifyEvent f c t]

/-- An edit: on which device, of which file, to which contents, and when. -/
structure Edit (ι : Type) where
  /-- The device. -/
  device : ι
  /-- The file. -/
  file : Name
  /-- What the file was made. -/
  contents : Contents
  /-- When. -/
  time : Int
deriving DecidableEq

/-- The devices of a user, and the server. -/
structure World (ι : Type) where
  /-- The devices. -/
  device : ι → Device
  /-- The server. -/
  server : FileHost
  /-- Where the user's sync directory is on the server. -/
  serverDir : Path
  /-- What time it is. -/
  now : Int
  /-- The edits so far, the latest first. -/
  edits : List (Edit ι)
  /-- The edits whose contents the server has held. -/
  held : List (Edit ι)

namespace World

variable {ι : Type} [DecidableEq ι]

/-- The files the server has for the user. -/
def serverStore (w : World ι) : Store := w.server.view w.serverDir

/-- The most recent edit of a file on a device. -/
def lastEdit (w : World ι) (i : ι) (f : Name) : Option (Edit ι) :=
  w.edits.find? fun e ↦ e.device = i ∧ e.file = f

/-- The event of an edit is among those that are still to be handled, and there was no later edit of
the file on that device. -/
def Unsynced (w : World ι) (e : Edit ι) : Prop :=
  w.lastEdit e.device e.file = some e ∧
    (w.device e.device).files.modifyEvent e.file e.contents e.time ∈ (w.device e.device).pending

instance (w : World ι) (e : Edit ι) : Decidable (w.Unsynced e) :=
  inferInstanceAs (Decidable (_ ∧ _))

/-- A file is edited on a device. -/
def edit (w : World ι) (i : ι) (f : Name) (c : Contents) (t : Int) : World ι where
  device := Function.update w.device i ((w.device i).edit f c t)
  server := w.server
  serverDir := w.serverDir
  now := t
  edits := ⟨i, f, c, t⟩ :: w.edits
  held := w.held

@[simp] theorem edit_device_self (w : World ι) (i : ι) (f : Name) (c : Contents) (t : Int) :
    (w.edit i f c t).device i = (w.device i).edit f c t :=
  Function.update_self ..

theorem edit_device_of_ne (w : World ι) {i j : ι} (hj : j ≠ i) (f : Name) (c : Contents) (t : Int) :
    (w.edit i f c t).device j = w.device j :=
  Function.update_of_ne hj ..

/-- The session with which device `i` synchronises, given what the clock will show to both sides. -/
def syncStart (w : World ι) (i : ι) (clock serverClock : Nat → Int) : PeerPair Bool Bool :=
  Bropdox.syncStart ⟨(w.device i).files.timed clock, false⟩ (w.server.timed serverClock)
    (w.device i).pending

/-- The world after a session of device `i` that has ended in `t`: the edits whose events were
handled have reached the server if it now holds their contents. -/
def afterSync (w : World ι) (i : ι) (later : Int) (t : PeerPair Bool Bool) : World ι where
  device := Function.update w.device i ⟨t.left.host.files, (w.device i).dir, []⟩
  server := t.right.host
  serverDir := w.serverDir
  now := later
  edits := w.edits
  held := w.held ++ w.edits.filter fun e ↦ e.device = i ∧ w.Unsynced e ∧
    (t.right.host.view w.serverDir e.file).map File.contents = some e.contents

/-- Device `i` completes a synchronisation, which takes from now until `later`: both sides return,
and no datagram is misread on the way (a session in which one is waited for as something else than
it was sent as does not get on, see `typed`). -/
def Syncs (w : World ι) (i : ι) (w' : World ι) : Prop :=
  ∃ later clock serverClock t, w.now ≤ later ∧ (∀ n, w.now ≤ clock n ∧ clock n ≤ later) ∧
    (∀ n, w.now ≤ serverClock n ∧ serverClock n ≤ later) ∧
    (w.syncStart i clock serverClock).EndsIn peers t ∧ (∃ a b, t.Returned a b) ∧
    w' = w.afterSync i later t

/-- The steps of the world. -/
inductive Step : World ι → World ι → Prop
  | edit {w : World ι} {f : Name} {t : Int} (i : ι) (c : Contents) (hf : Plain f)
      (ht : w.now ≤ t) : Step w (w.edit i f c t)
  | sync {w w' : World ι} {i : ι} (hs : w.Syncs i w') : Step w w'

/-- Nothing has been edited yet: the devices and the server have flat sync directories with any
files in them, and no event is queued. -/
structure Initial (w : World ι) : Prop where
  /-- The sync directory of the server is flat. -/
  server : FlatDir w.server.machine w.server.syncDir w.serverDir
  /-- The server's `read_file` is that of the source. -/
  serverReported : w.server.reported = countPackets
  /-- The sync directories of the devices are flat. -/
  device : ∀ i, FlatDir (w.device i).files.machine (w.device i).files.syncDir (w.device i).dir
  /-- The sync directories of the devices are known by absolute paths. -/
  absolute : ∀ i, isAbsolute (w.device i).files.syncDir = true
  /-- The `read_file` of the devices is that of the source. -/
  reported : ∀ i, (w.device i).files.reported = countPackets
  /-- No events are queued. -/
  pending : ∀ i, (w.device i).pending = []
  /-- There were no edits. -/
  edits : w.edits = []
  /-- No edit has reached the server. -/
  held : w.held = []

/-- The worlds that edits and complete synchronisations lead to. -/
inductive Reachable : World ι → Prop
  | initial {w : World ι} (hw : w.Initial) : Reachable w
  | step {w w' : World ι} (hw : Reachable w) (hs : Step w w') : Reachable w'

/-- What a host holds of a file is what an edit made it. -/
def Holds (st : Store) (e : Edit ι) : Prop := (st e.file).map File.contents = some e.contents

/-- **In a session the newest edit wins**: an edit whose event it handles, and that is later than
all edits of the file that the server has held, is afterwards on the server and on the device. -/
def NewestEditWins (w : World ι) (i : ι) (w' : World ι) : Prop :=
  ∀ e, e.device = i → w.Unsynced e → (∀ e' ∈ w.held, e'.file = e.file → e'.time < e.time) →
    Holds w'.serverStore e ∧ Holds (w'.device i).store e

/-- The server wrote its copy of the file before the edit was made, and the file is not listed with
no packets; or it holds the same already. -/
def Deliverable (w : World ι) (e : Edit ι) : Prop :=
  Holds w.serverStore e ∨
    (w.serverStore.modifiedTime e.file < e.time ∧ listedCount e.contents.bytes.length ≠ 0)

end World

/-! ## What a session does to one file

The file on the server through all events of the session, and then the copy of the device. -/

section OneFile

variable {h : FileHost} {client : Store} {r r' : Replica} {event : FileEvent} {f : Name} {x : File}

/-- An event of a modification puts the client's copy on the server, or leaves the server's copy
alone. -/
theorem takeEvent_modify (htake : r.takeEvent h client event = some r') (hx : client f = some x)
    (he : event.event = .modify) :
    (event.fileName = f ∧ r.store.modifiedTime f < event.file.modifiedTime ∧
        h.announced x.contents ≠ 0 ∧ (r'.store f).map File.contents = some x.contents) ∨
      (r'.store f = r.store f ∧ ¬ (event.fileName = f ∧
        r.store.modifiedTime f < event.file.modifiedTime ∧ h.announced x.contents ≠ 0)) := by
  by_cases hf : event.fileName = f
  · subst hf
    rw [Replica.takeEvent] at htake
    by_cases hacc : r.Accepts event
    · simp only [if_pos hacc, hx] at htake
      by_cases hzero : h.announced x.contents = 0
      · obtain rfl : r = r' := by simpa [hzero] using htake
        exact .inr ⟨rfl, fun hnot ↦ hnot.2.2 hzero⟩
      · by_cases hcount : WellCounted h x.contents
        · obtain rfl : r.save event.fileName x.contents = r' := by
            simpa [hzero, hcount] using htake
          exact .inl ⟨rfl, hacc.2, hzero, by simp⟩
        · simp [hzero, hcount] at htake
    · have hstale : ¬ r.store.modifiedTime event.fileName < event.file.modifiedTime :=
        fun hlt ↦ hacc ⟨.inr he, hlt⟩
      obtain rfl : r = r' := by
        simpa [Replica.applyEvent, hacc, he] using htake
      exact .inr ⟨rfl, fun hnot ↦ hstale hnot.2.1⟩
  · refine .inr ⟨?_, fun hnot ↦ hf hnot.1⟩
    rcases Replica.takeEvent_cases htake with rfl | ⟨y, -, -, rfl⟩ | ⟨hremove, -⟩
    · rfl
    · exact Store.save_of_ne _ _ (Ne.symm hf)
    · rw [he] at hremove
      cases hremove

/-- **All events of a session**: the server ends up with the client's copy if it had it already, or
if one of them was accepted. -/
theorem holds_takeEvents {events : List FileEvent} (hx : client f = some x)
    (htake : r.takeEvents h client events = some r')
    (he : ∀ event ∈ events, event.event = .modify) :
    (r'.store f).map File.contents = some x.contents ↔
      (r.store f).map File.contents = some x.contents ∨ (h.announced x.contents ≠ 0 ∧
        ∃ event ∈ events, event.fileName = f ∧
          r.store.modifiedTime f < event.file.modifiedTime) := by
  induction events generalizing r with
  | nil =>
    cases htake
    simp
  | cons event events ih =>
    obtain ⟨r₁, hone, hrest⟩ := Option.bind_eq_some_iff.mp htake
    rw [ih hrest fun e hmem ↦ he e (List.mem_cons_of_mem _ hmem)]
    rcases takeEvent_modify hone hx (he event List.mem_cons_self) with
      ⟨hf, hlt, hpos, hsaved⟩ | ⟨hsame, hnot⟩
    · exact iff_of_true (.inl hsaved) (.inr ⟨hpos, event, List.mem_cons_self, hf, hlt⟩)
    · -- the event is none of those that are accepted
      rw [Store.modifiedTime, hsame, ← Store.modifiedTime]
      refine or_congr_right (and_congr_right fun hpos ↦ ?_)
      rw [List.exists_mem_cons_iff]
      exact (or_iff_right fun hacc ↦ hnot ⟨hacc.1, hacc.2, hpos⟩).symm

/-- Where both hold the same, pulling changes nothing that matters. -/
theorem Replica.Pulled.holds {server final : Store} (hp : Replica.Pulled server client final)
    (hx : client f = some x) (hs : (server f).map File.contents = some x.contents) :
    (final f).map File.contents = some x.contents := by
  have hpf := hp f
  obtain ⟨y, hy, hyc⟩ := Option.map_eq_some_iff.mp hs
  rw [hy] at hpf
  simp only at hpf
  split at hpf
  · rw [hpf, hyc]
  · rw [hpf, hx]
    rfl

end OneFile

/-! ## Every reachable world

The invariant of the edits and synchronisations. -/

namespace Device

variable {ι : Type} {last : Name → Option (Edit ι)} {now : Int} {d : Device}

/-- What a queued event says about its device, `last` being the most recent edit of each file: the
file still is what that edit made it, and that was not before the event. -/
structure Queued (d : Device) (last : Name → Option (Edit ι)) (now : Int) (event : FileEvent)
    (e : Edit ι) : Prop where
  /-- The most recent edit of the file. -/
  last_eq : last event.fileName = some e
  /-- The event is that of a modification. -/
  modify : event.event = .modify
  /-- The file can be an entry of a directory. -/
  plain : Plain event.fileName
  /-- The event names it in the sync directory. -/
  path : event.file.name = d.files.syncDir ++ event.fileName
  /-- The edit is not older than the event. -/
  time_le : event.file.modifiedTime ≤ e.time
  /-- The edit is not in the future. -/
  le_now : e.time ≤ now
  /-- The file is what the edit made it. -/
  store : d.store event.fileName = some ⟨e.contents, e.time⟩

/-- What holds of a device at any time. -/
structure Good (d : Device) (last : Name → Option (Edit ι)) (now : Int) : Prop where
  /-- The sync directory is flat. -/
  flat : FlatDir d.files.machine d.files.syncDir d.dir
  /-- The sync directory is known by an absolute path. -/
  absolute : isAbsolute d.files.syncDir = true
  /-- `read_file` is that of the source. -/
  reported : d.files.reported = countPackets
  /-- The queued events come from edits that nothing has overwritten. -/
  pending : ∀ event ∈ d.pending, ∃ e, d.Queued last now event e

theorem Good.later (hd : d.Good last now) {later : Int} (hle : now ≤ later) :
    d.Good last later :=
  ⟨hd.flat, hd.absolute, hd.reported, fun event hevent ↦ by
    obtain ⟨e, he⟩ := hd.pending event hevent
    exact ⟨e, { he with le_now := he.le_now.trans hle }⟩⟩

/-- The events of a device are those of a watcher. -/
theorem Good.watched (hd : d.Good last now) {clock : Nat → Int} :
    ∀ event ∈ d.pending, Watched (d.files.timed clock) d.dir event := by
  intro event hevent
  obtain ⟨e, he⟩ := hd.pending event hevent
  refine ⟨.inr (.inl he.modify), ?_, he.plain, ?_⟩
  · rw [he.path]
    exact isAbsolute_append hd.absolute _
  · rw [he.path]
    exact (FileHost.flatDir_timed hd.flat clock).resolve he.plain

/-- The event of an edit names the file. -/
theorem fileName_modifyEvent (hflat : FlatDir d.files.machine d.files.syncDir d.dir) {f : Name}
    (hf : Plain f) (c : Contents) (t : Int) : (d.files.modifyEvent f c t).fileName = f :=
  hflat.filename hf

theorem store_edit (f : Name) (c : Contents) (t : Int) :
    (d.edit f c t).store = d.store.save f ⟨c, t⟩ :=
  FileHost.view_edit c t

/-- **An edit** is the most recent one of its file, and leaves the other files as they were. -/
theorem Good.edit (hd : d.Good last now) {f : Name} {e : Edit ι} (hf : Plain f)
    (ht : now ≤ e.time) :
    (d.edit f e.contents e.time).Good (Function.update last f (some e)) e.time := by
  refine ⟨FileHost.flatDir_edit hd.flat hf .., hd.absolute, hd.reported, fun event hevent ↦ ?_⟩
  have hnewest : event.fileName = f → event.event = .modify →
      event.file.name = d.files.syncDir ++ event.fileName → event.file.modifiedTime ≤ e.time →
      (d.edit f e.contents e.time).Queued (Function.update last f (some e)) e.time event e := by
    intro hfile hmodify hpath htime
    exact ⟨by rw [hfile, Function.update_self], hmodify, hfile ▸ hf, hpath, htime, le_rfl,
      by rw [store_edit, hfile, Store.save_self]⟩
  rcases List.mem_append.mp hevent with hold | hnew
  · obtain ⟨e', he⟩ := hd.pending event hold
    by_cases hfile : event.fileName = f
    · exact ⟨e, hnewest hfile he.modify he.path ((he.time_le.trans he.le_now).trans ht)⟩
    · exact ⟨e', by rw [Function.update_of_ne hfile]; exact he.last_eq, he.modify, he.plain,
        he.path, he.time_le, he.le_now.trans ht,
        by rw [store_edit, Store.save_of_ne _ _ hfile]; exact he.store⟩
  · obtain rfl := List.mem_singleton.mp hnew
    have hfile := fileName_modifyEvent hd.flat hf e.contents e.time
    exact ⟨e, hnewest hfile rfl (by rw [hfile]; rfl) le_rfl⟩

end Device

namespace World

variable {ι : Type} [DecidableEq ι] {w w' : World ι} {i : ι}

/-- What holds in every reachable world. -/
structure Good (w : World ι) : Prop where
  /-- The sync directory of the server is flat. -/
  server : FlatDir w.server.machine w.server.syncDir w.serverDir
  /-- The devices are as they should be. -/
  device : ∀ i, (w.device i).Good (w.lastEdit i) w.now
  /-- What was edited can be an entry of a directory. -/
  plain : ∀ e ∈ w.edits, Plain e.file

theorem lastEdit_edit_self (i : ι) (f : Name) (c : Contents) (t : Int) :
    (w.edit i f c t).lastEdit i = Function.update (w.lastEdit i) f (some ⟨i, f, c, t⟩) := by
  funext g
  by_cases hg : g = f
  · subst hg
    simp [lastEdit, edit]
  · rw [Function.update_of_ne hg, lastEdit, edit, List.find?_cons_of_neg (by simp [Ne.symm hg])]
    rfl

theorem lastEdit_edit_of_ne {j : ι} (hj : j ≠ i) (f : Name) (c : Contents) (t : Int) :
    (w.edit i f c t).lastEdit j = w.lastEdit j := by
  funext g
  rw [lastEdit, edit, List.find?_cons_of_neg (by simp [Ne.symm hj])]
  rfl

theorem Initial.good (hw : w.Initial) : w.Good := by
  refine ⟨hw.server, fun i ↦ ⟨hw.device i, hw.absolute i, hw.reported i, fun event hevent ↦ ?_⟩,
    fun e he ↦ ?_⟩
  · rw [hw.pending i] at hevent
    cases hevent
  · rw [hw.edits] at he
    cases he

theorem Good.edit (hw : w.Good) {f : Name} {t : Int} (c : Contents) (hf : Plain f)
    (ht : w.now ≤ t) : (w.edit i f c t).Good := by
  refine ⟨hw.server, fun j ↦ ?_, List.forall_mem_cons.mpr ⟨hf, hw.plain⟩⟩
  by_cases hj : j = i
  · subst hj
    rw [lastEdit_edit_self, edit_device_self]
    exact (hw.device j).edit (e := ⟨j, f, c, t⟩) hf ht
  · rw [lastEdit_edit_of_ne hj, edit_device_of_ne w hj]
    exact (hw.device j).later ht

/-- What a complete synchronisation does. -/
structure Synced (w : World ι) (i : ι) (w' : World ι) (r' : Replica) : Prop where
  /-- The clock does not go back. -/
  now : w.now ≤ w'.now
  /-- What the events make of the server's files. -/
  takeEvents : ∃ clock serverClock, Replica.takeEvents ((w.device i).files.timed clock)
    (w.device i).store ⟨w.serverStore, serverClock⟩ (w.device i).pending = some r'
  /-- The server holds that. -/
  serverStore : w'.serverStore = r'.store
  /-- The server's directory is still flat. -/
  server : FlatDir w'.server.machine w'.server.syncDir w'.serverDir
  /-- The device has taken over what the server had later copies of. -/
  pulled : Replica.Pulled r'.store (w.device i).store (w'.device i).store
  /-- The events of the device are handled. -/
  pending : (w'.device i).pending = []
  /-- The directory of the device is still flat. -/
  flat : FlatDir (w'.device i).files.machine (w'.device i).files.syncDir (w'.device i).dir
  /-- Nothing else has changed on the device. -/
  same : (w.device i).files.SameSettings (w'.device i).files
  /-- The other devices have not changed. -/
  others : ∀ j, j ≠ i → w'.device j = w.device j
  /-- Nothing was edited. -/
  edits : w'.edits = w.edits

/-- **The outcome of a complete synchronisation**, from the two programs. -/
theorem Good.synced (hw : w.Good) (hs : w.Syncs i w') : ∃ r', w.Synced i w' r' := by
  obtain ⟨later, clock, serverClock, t, hlater, -, -, ht, ⟨a, b, hret⟩, rfl⟩ := hs
  obtain ⟨r', names, htake, hm, -, hm', hset', hlists⟩ := sync_returned
    (h := ⟨(w.device i).files.timed clock, false⟩)
    (FileHost.mirrors_timed (hw.device i).flat clock) (FileHost.mirrors_timed hw.server serverClock)
    (hw.device i).watched ht hret
  have hself : (w.afterSync i later t).device i = ⟨t.left.host.files, (w.device i).dir, []⟩ :=
    Function.update_self ..
  refine ⟨r', hlater, ⟨clock, serverClock, htake⟩, hm.view_eq, hm.flat, ?_, ?_, ?_, ?_,
    fun j hj ↦ Function.update_of_ne hj .., rfl⟩
  · rw [hself]
    show Replica.Pulled r'.store _ (t.left.host.files.view (w.device i).dir)
    rw [hm'.view_eq]
    exact hlists.pulled ⟨(w.device i).store, clock⟩
  · rw [hself]
  · rw [hself]
    exact hm'.flat
  · rw [hself]
    exact ⟨hset'.reported, hset'.syncDir⟩

theorem Good.sync (hw : w.Good) (hs : w.Syncs i w') : w'.Good := by
  obtain ⟨r', hdone⟩ := hw.synced hs
  have hlast : ∀ j, w'.lastEdit j = w.lastEdit j := fun j ↦ by
    funext f
    rw [lastEdit, hdone.edits]
    rfl
  refine ⟨hdone.server, fun j ↦ ?_, hdone.edits ▸ hw.plain⟩
  rw [hlast]
  by_cases hj : j = i
  · subst hj
    refine ⟨hdone.flat, hdone.same.syncDir ▸ (hw.device j).absolute,
      hdone.same.reported.trans (hw.device j).reported, fun event hevent ↦ ?_⟩
    rw [hdone.pending] at hevent
    cases hevent
  · rw [hdone.others j hj]
    exact (hw.device j).later hdone.now

/-- **Every reachable world is good.** -/
theorem Reachable.good (hw : w.Reachable) : w.Good := by
  induction hw with
  | initial hw => exact hw.good
  | step _ hs ih =>
    cases hs with
    | edit i c hf ht => exact ih.edit c hf ht
    | sync hs => exact ih.sync hs

/-! ## The newest edit

What becomes of one edit in the session that handles its event. -/

/-- **What becomes of one edit** in the session that handles its event. -/
theorem Good.delivered_iff (hw : w.Good) (hs : w.Syncs i w') {e : Edit ι} (he : e.device = i)
    (hun : w.Unsynced e) :
    (Holds w'.serverStore e ∧ Holds (w'.device i).store e) ↔ w.Deliverable e := by
  subst he
  obtain ⟨r', hdone⟩ := hw.synced hs
  obtain ⟨clock, serverClock, htake⟩ := hdone.takeEvents
  have hdevice := hw.device e.device
  have hplain : Plain e.file := hw.plain e (List.mem_of_find?_eq_some hun.1)
  have hqueue : ∀ event ∈ (w.device e.device).pending, event.fileName = e.file →
      (w.device e.device).Queued (w.lastEdit e.device) w.now event e := by
    intro event hevent hfile
    obtain ⟨e', he'⟩ := hdevice.pending event hevent
    have hsame := he'.last_eq
    rw [hfile, hun.1] at hsame
    cases hsame
    exact he'
  have hname := Device.fileName_modifyEvent hdevice.flat hplain e.contents e.time
  have hx : (w.device e.device).store e.file = some ⟨e.contents, e.time⟩ :=
    hname ▸ (hqueue _ hun.2 hname).store
  have hannounced : ((w.device e.device).files.timed clock).announced e.contents
      = listedCount e.contents.bytes.length :=
    congrArg (fun k : Nat → Nat ↦ UInt32.ofNat (k e.contents.bytes.length)) hdevice.reported
  have hserver : Holds w'.serverStore e ↔ w.Deliverable e := by
    rw [Holds, hdone.serverStore, holds_takeEvents hx htake fun event hevent ↦ by
      obtain ⟨e', he'⟩ := hdevice.pending event hevent
      exact he'.modify]
    refine or_congr_right ?_
    rw [hannounced, and_comm]
    refine and_congr_left fun _ ↦ ⟨?_, fun hlt ↦ ⟨_, hun.2, hname, hlt⟩⟩
    -- of all events of the file that of the last edit is the latest
    rintro ⟨event, hevent, hfile, hlt⟩
    exact hlt.trans_le (hqueue event hevent hfile).time_le
  rw [← hserver]
  refine and_iff_left_of_imp fun hholds ↦ ?_
  rw [Holds, hdone.serverStore] at hholds
  exact hdone.pulled.holds hx hholds

/-- A session completes if the two replicas say so. -/
theorem Good.exists_sync (hw : w.Good) {later : Int} (hlater : w.now ≤ later) {r' : Replica}
    (htake : Replica.takeEvents ((w.device i).files.timed fun _ ↦ later) (w.device i).store
      ⟨w.serverStore, fun _ ↦ later⟩ (w.device i).pending = some r')
    (hget : ∀ f, Obtainable w.server r'.store (w.device i).store f) :
    ∃ w', w.Syncs i w' ∧ w'.serverStore = r'.store ∧ w'.server.reported = w.server.reported ∧
      w'.now = later ∧ ∀ e ∈ w'.held, e ∈ w.held ∨ (e ∈ w.edits ∧ e.device = i) := by
  have hget' : ∀ f, Obtainable (w.server.timed fun _ ↦ later) r'.store (w.device i).store f :=
    fun f ↦ (Obtainable.congr (FileHost.sameSettings_timed _ _)).mpr (hget f)
  obtain ⟨s, s', names, hm, hset, -, -, -, hend⟩ := sync_endsIn
    (h := ⟨(w.device i).files.timed fun _ ↦ later, false⟩)
    (FileHost.mirrors_timed (hw.device i).flat fun _ ↦ later)
    (FileHost.mirrors_timed hw.server fun _ ↦ later) (hw.device i).watched htake hget'
  refine ⟨w.afterSync i later _, ⟨later, fun _ ↦ later, fun _ ↦ later, _, hlater,
    fun _ ↦ ⟨hlater, le_rfl⟩, fun _ ↦ ⟨hlater, le_rfl⟩, hend, ⟨true, true, rfl, rfl⟩, rfl⟩,
    hm.view_eq, hset.reported, rfl, fun e he ↦ ?_⟩
  rcases List.mem_append.mp he with hold | hnew
  · exact .inl hold
  · obtain ⟨hmem, hfilter⟩ := List.mem_filter.mp hnew
    exact .inr ⟨hmem, (of_decide_eq_true hfilter).1⟩

/-- **The newest edit wins if and only if** the server wrote its copy before that edit was made, and
the file is not listed with no packets: in every run, for every session that completes. -/
theorem newest_edit_wins_iff (hw : w.Reachable) (hs : w.Syncs i w') :
    NewestEditWins w i w' ↔
      ∀ e, e.device = i → w.Unsynced e → (∀ e' ∈ w.held, e'.file = e.file → e'.time < e.time) →
        w.Deliverable e :=
  forall_congr' fun _ ↦ forall_congr' fun he ↦ forall_congr' fun hun ↦ forall_congr' fun _ ↦
    hw.good.delivered_iff hs he hun

/-! ## Two devices

At time 1 the first device writes a file, at time 5 the second one does, at time 10 the first device
synchronises and at time 12 the second one. -/

/-- Two devices and a server that have no files. -/
def twoDevices : World Bool where
  device _ := ⟨blank ['c'], [['c']], []⟩
  server := blank ['s']
  serverDir := [['s']]
  now := 0
  edits := []
  held := []

theorem twoDevices_initial : twoDevices.Initial where
  server := (FileHost.mirrors_ofFiles rfl (by decide)).flat
  serverReported := rfl
  device _ := (FileHost.mirrors_ofFiles rfl (by decide)).flat
  absolute _ := rfl
  reported _ := rfl
  pending _ := rfl
  edits := rfl
  held := rfl

/-- At time 1 the one device writes a file, at time 5 the other one writes the same file. -/
def bothEdited : World Bool :=
  (twoDevices.edit true ['f'] (.single 1) 1).edit false ['f'] (.single 2) 5

theorem bothEdited_reachable : bothEdited.Reachable :=
  .step (.step (.initial twoDevices_initial) (.edit true _ (by decide) (by decide)))
    (.edit false _ (by decide) (by decide))

/-- What the first edit leaves on the server, at time 10. -/
def firstCopy : Store := twoDevices.serverStore.save ['f'] ⟨.single 1, 10⟩

theorem firstCopy_self : firstCopy ['f'] = some ⟨.single 1, 10⟩ := Store.save_self ..

theorem obtainable_firstCopy {h' : FileHost} (hh : h'.reported = countPackets) (client : Store)
    (f : Name) : Obtainable h' firstCopy client f := by
  intro x hx
  by_cases hf : f = ['f']
  · subst hf
    rw [firstCopy_self] at hx
    cases hx
    exact ⟨by decide, fun _ ↦ wellCounted_of_lt hh (by decide) (by decide)⟩
  · rw [firstCopy, Store.save_of_ne _ _ hf] at hx
    have hblank : ((blank ['s']).replica [['s']]).store f = some x := hx
    exact absurd (FileHost.mem_of_replica_ofFiles hblank) List.not_mem_nil

/-- At time 10 the first device synchronises. -/
theorem first_sync : ∃ w, bothEdited.Syncs true w ∧ w.serverStore = firstCopy ∧
    w.server.reported = countPackets ∧ w.now = 10 ∧
    ∀ e ∈ w.held, e ∈ bothEdited.edits ∧ e.device = true := by
  have hup : Uploadable ((bothEdited.device true).files.timed fun _ ↦ 10)
      (bothEdited.device true).store ⟨bothEdited.serverStore, fun _ ↦ 10⟩
      (bothEdited.device true).pending :=
    ⟨fun _ ↦ ⟨_, rfl, wellCounted_of_lt rfl (by decide) (by decide)⟩, trivial⟩
  have htake := Replica.takeEvents_of_uploadable hup
  obtain ⟨w, hs, hstore, hrep, hnow, hheld⟩ := bothEdited_reachable.good.exists_sync (by decide)
    htake (obtainable_firstCopy rfl _)
  refine ⟨w, hs, hstore, hrep, hnow, fun e he ↦ ?_⟩
  rcases hheld e he with hold | hnew
  · cases hold
  · exact hnew

/-- The edits of the run. -/
theorem mem_bothEdited {e : Edit Bool} (he : e ∈ bothEdited.edits) :
    e = ⟨false, ['f'], .single 2, 5⟩ ∨ e = ⟨true, ['f'], .single 1, 1⟩ := by
  simpa [bothEdited, World.edit, twoDevices] using he

/-- The first device synchronises while the server has nothing: its edit arrives. -/
theorem first_edit_wins : ∃ w, bothEdited.Syncs true w ∧ NewestEditWins bothEdited true w := by
  obtain ⟨w, hs, -⟩ := first_sync
  refine ⟨w, hs, (newest_edit_wins_iff bothEdited_reachable hs).mpr fun e he hun _ ↦ ?_⟩
  rcases mem_bothEdited (List.mem_of_find?_eq_some hun.1) with rfl | rfl
  · cases he
  · exact .inr (by decide)

/-- **A later edit is lost**: the second device's edit is later than the one the server holds, but
the server wrote its copy later still.  The session completes, the edit is refused, and the device
overwrites its file with the earlier edit. -/
theorem later_edit_lost : ∃ w w', bothEdited.Syncs true w ∧ w.Syncs false w' ∧ w.Reachable ∧
    ¬ NewestEditWins w false w' ∧
    ((w'.device false).store ['f']).map File.contents = some (.single 1) := by
  obtain ⟨w, hs, hstore, hrep, hnow, hheld⟩ := first_sync
  have hw : w.Reachable := .step bothEdited_reachable (.sync hs)
  obtain ⟨r', hdone⟩ := bothEdited_reachable.good.synced hs
  have hdev : w.device false = bothEdited.device false := hdone.others false (by decide)
  have hclock : w.serverStore.modifiedTime ['f'] = 10 := by
    rw [hstore, Store.modifiedTime, firstCopy_self]
    rfl
  -- the event of the edit is refused
  have htake : Replica.takeEvents ((w.device false).files.timed fun _ ↦ 12) (w.device false).store
      ⟨w.serverStore, fun _ ↦ 12⟩ (w.device false).pending = some ⟨w.serverStore, fun _ ↦ 12⟩ := by
    have hstale : ¬ Replica.Accepts ⟨w.serverStore, fun _ ↦ 12⟩
        ((twoDevices.device false).files.modifyEvent ['f'] (.single 2) 5) := by
      intro hacc
      have hlt : w.serverStore.modifiedTime ['f'] < 5 := hacc.2
      omega
    rw [hdev]
    show (Replica.takeEvent _ _ _
      ((twoDevices.device false).files.modifyEvent ['f'] (.single 2) 5)).bind _ = _
    rw [Replica.takeEvent, if_neg hstale, Replica.applyEvent, if_neg hstale]
    rfl
  obtain ⟨w', hs', hstore', -⟩ := hw.good.exists_sync (by omega) htake
    (hstore ▸ obtainable_firstCopy hrep _)
  obtain ⟨r'', hdone'⟩ := hw.good.synced hs'
  have hserver : w'.serverStore = firstCopy := hstore'.trans hstore
  refine ⟨w, w', hs, hs', hw, fun hwins ↦ ?_, ?_⟩
  · have hlost := (hwins ⟨false, ['f'], .single 2, 5⟩ rfl ?_ ?_).1
    · rw [Holds, hserver, firstCopy_self] at hlost
      exact absurd hlost (by decide)
    · rw [Unsynced, lastEdit, hdone.edits, hdev]
      exact ⟨rfl, by decide⟩
    · intro e he _
      obtain ⟨hmem, hdevice⟩ := hheld e he
      rcases mem_bothEdited hmem with rfl | rfl
      · cases hdevice
      · decide
  · have hpulled := hdone'.pulled ['f']
    rw [← hdone'.serverStore, hserver, firstCopy_self, hdev] at hpulled
    exact hpulled

end World
end Bropdox
