import Bropdox.Delivery
import Bropdox.Histories
import Bropdox.KeyedStore
import Bropdox.Printing
import Bropdox.Session.Transcripts

/-!
# The server as a store

Several devices of one user give commands and synchronise, one after the other and in any order, and
between that the files of any device may change at will.  What the server is *for* is to be one
store that all of them share, and this file says so: the contents that it holds under a name are
those that were put there last.

## What is here

* `Deed` is what a device can do with the server, a command or the synchronisation of a list of
  events; `Household` is the system of all devices of a user, and `Household.Step` and
  `Household.Run` are its runs.  Each step carries the acts on a keyed store that it stands for
  (`Household.acts`, and `heedAll` for the events of a synchronisation).
* `Household.Sound` is the invariant between two deeds.  Part of it is about the packet counts: only
  files that are counted right, or refused, are uploaded, so the server never has a file that it
  cannot send.
* `Household.Proper` is what is asked of a deed: names that lead directly into the user's directory,
  an upload that is counted right or announced with no packets, the deletion of a file that the
  client has.  The faults of the protocol that the other modules describe lie outside it, and one
  improper deed leaves a datagram behind that the next session misreads.
* `Sound.leaves` is the step lemma for one session, assembled from one lemma for each command that
  says in which states the session ends; `Sound.step` and `Sound.run` lift it to runs.
* `household_keeps_store`: after any run of proper deeds the server holds what the history of the
  run makes of a keyed store.
* `household_completes`: no such run leads to a state in which a later proper deed gets stuck.
* `download_yields_last` and `ls_lists_history`: a download by any device, and a listing, are
  answered from the last thing that was done to a name.
* `twoDesks` is a user with two devices, the run of an upload, and what the other device then sees.
-/

set_option autoImplicit false

namespace Bropdox

open FileSystem Session Program SocketHandler Peers

open KeyedStore (Act LastAbout Untouched)

open Relation (ReflTransGen)

/-! ## What the events of a synchronisation do to the server

`sync_client` announces each event with the time of the file, and the server obeys if it has nothing
later.  On the contents this is a put or a drop, or nothing. -/

/-- The contents of the files of a store. -/
def contentsOf (st : Store) : Name → Option Contents := fun f ↦ (st f).map File.contents

theorem contentsOf_save (st : Store) (f : Name) (x : File) :
    contentsOf (st.save f x) = KeyedStore.apply (contentsOf st) (.put f x.contents) := by
  funext g
  by_cases hg : g = f
  · subst hg
    simp [contentsOf, KeyedStore.apply]
  · simp [contentsOf, KeyedStore.apply, hg]

theorem contentsOf_remove (st : Store) (f : Name) :
    contentsOf (st.remove f) = KeyedStore.apply (contentsOf st) (.drop f) := by
  funext g
  by_cases hg : g = f
  · subst hg
    simp [contentsOf, KeyedStore.apply]
  · simp [contentsOf, KeyedStore.apply, hg]

namespace Replica

variable {h : FileHost} {client : Store} {r r' : Replica} {event : FileEvent}
  {events : List FileEvent}

/-- What an event changes on the server. -/
def heed (h : FileHost) (client : Store) (r : Replica) (event : FileEvent) :
    List (Act Name Contents) :=
  if r.Accepts event then
    match client event.fileName with
    | some x => if h.announced x.contents = 0 then [] else [.put event.fileName x.contents]
    | none => []
  else if event.event = .remove then [.drop event.fileName]
  else []

/-- What a list of events changes on the server. -/
def heedAll (h : FileHost) (client : Store) : Replica → List FileEvent → List (Act Name Contents)
  | _, [] => []
  | r, event :: events =>
    r.heed h client event ++ heedAll h client ((r.takeEvent h client event).getD r) events

theorem contentsOf_takeEvent (htake : r.takeEvent h client event = some r') :
    contentsOf r'.store = KeyedStore.after (contentsOf r.store) (r.heed h client event) := by
  rw [takeEvent] at htake
  rw [heed]
  by_cases hacc : r.Accepts event
  · rw [if_pos hacc] at htake ⊢
    cases hx : client event.fileName with
    | none => simp [hx] at htake
    | some x =>
      simp only [hx] at htake ⊢
      by_cases hzero : h.announced x.contents = 0
      · rw [if_pos hzero, Option.some_inj] at htake
        rw [if_pos hzero, ← htake, KeyedStore.after_nil]
      · by_cases hcount : WellCounted h x.contents
        · rw [if_neg hzero, if_pos hcount, Option.some_inj] at htake
          rw [if_neg hzero, ← htake, save_store, contentsOf_save]
          rfl
        · simp [hzero, hcount] at htake
  · rw [if_neg hacc, Option.some_inj] at htake
    rw [if_neg hacc, ← htake]
    by_cases he : event.event = .remove
    · rw [if_pos he, applyEvent_remove client r he, remove_store, contentsOf_remove]
      rfl
    · rw [if_neg he, applyEvent_stale client hacc he, KeyedStore.after_nil]

theorem contentsOf_takeEvents (htake : r.takeEvents h client events = some r') :
    contentsOf r'.store = KeyedStore.after (contentsOf r.store) (r.heedAll h client events) := by
  induction events generalizing r with
  | nil =>
    cases htake
    rfl
  | cons event events ih =>
    obtain ⟨s, hone, hrest⟩ := Option.bind_eq_some_iff.mp htake
    rw [heedAll, KeyedStore.after_append, ← contentsOf_takeEvent hone, hone, Option.getD_some,
      ih hrest]

/-- All files of a store are counted right. -/
def Counted (h : FileHost) (st : Store) : Prop := ∀ f x, st f = some x → WellCounted h x.contents

theorem Counted.save {st : Store} (hst : Counted h st) {f : Name} {x : File}
    (hx : WellCounted h x.contents) : Counted h (st.save f x) := by
  intro g y hy
  by_cases hg : g = f
  · subst hg
    rw [Store.save_self, Option.some_inj] at hy
    rwa [← hy]
  · rw [Store.save_of_ne _ _ hg] at hy
    exact hst g y hy

theorem Counted.remove {st : Store} (hst : Counted h st) (f : Name) :
    Counted h (st.remove f) := by
  intro g y hy
  by_cases hg : g = f
  · subst hg
    simp at hy
  · rw [Store.remove_of_ne _ hg] at hy
    exact hst g y hy

theorem Counted.congr {h' : FileHost} {st : Store} (hst : Counted h st)
    (hr : h'.reported = h.reported) : Counted h' st := fun f x hx ↦ (hst f x hx).congr hr

theorem Counted.takeEvent (hst : Counted h r.store) (htake : r.takeEvent h client event = some r') :
    Counted h r'.store := by
  obtain ⟨hsend, rfl⟩ := takeEvent_eq_some_iff.mp htake
  rw [settle]
  split
  · exact hst
  · rename_i hkept
    rcases applyEvent_cases client r event with he | ⟨x, hacc, hx, he⟩ | ⟨-, he⟩ <;> rw [he]
    · exact hst
    · obtain ⟨y, hy, hcan⟩ := hsend hacc
      obtain rfl : x = y := Option.some_inj.mp (hx.symm.trans hy)
      refine hst.save (hcan.resolve_left fun hzero ↦ hkept ⟨hacc, ?_⟩)
      simpa [hx] using hzero
    · exact hst.remove _

theorem Counted.takeEvents (hst : Counted h r.store)
    (htake : r.takeEvents h client events = some r') : Counted h r'.store := by
  induction events generalizing r with
  | nil =>
    cases htake
    exact hst
  | cons event events ih =>
    obtain ⟨s, hone, hrest⟩ := Option.bind_eq_some_iff.mp htake
    exact ih (hst.takeEvent hone) hrest

end Replica

/-! ## The system

The household keeps what survives a session: the files of the devices, the sockets that were left
open, and the directory of the user on the server.  A session begins with the sockets of the device
as the last session left them. -/

/-- The devices of a user, the request handlers of the devices, and the server. -/
structure Household (ι : Type) where
  /-- The clients. -/
  client : ι → Client.Host
  /-- The sockets `sock_handler_req` of the devices. -/
  socket : ι → Inbox sessionWire
  /-- The sockets of the request handlers. -/
  inbox : ι → Inbox sessionWire
  /-- The server. -/
  server : FileHost

/-- What is done with the server: a command, or the synchronisation of a list of events. -/
inductive Deed
  | command (cmd : Command)
  | sync (events : List FileEvent)

/-- The request in the handshake. -/
def Deed.req : Deed → Req
  | command cmd => cmd.req
  | sync _ => .sync

/-- What the client does once the handshake has succeeded. -/
def Deed.program : Deed → Client.Prog Bool
  | command cmd => cmd.program
  | sync events => Client.syncClient events

namespace Household

variable {ι : Type}

/-- A device and its request handler. -/
def desk (w : Household ι) (i : ι) : Desk := ⟨w.client i, w.socket i, w.server, w.inbox i⟩

/-- The beginning of a session; a closed socket is replaced by a new one. -/
def start (w : Household ι) (i : ι) (deed : Deed) : PeerPair Bool Bool where
  left := ⟨w.client i, deed.program⟩
  right := ⟨w.server, RequestHandler.handleRequest deed.req⟩
  toLeft := some ((w.socket i).getD [])
  toRight := w.inbox i

/-- The beginning of `ls`, with what it prints. -/
def startPrinting (w : Household ι) (i : ι) : PeerPair (Bool × List Line) Bool where
  left := ⟨w.client i, Client.printServerFiles⟩
  right := ⟨w.server, RequestHandler.handleRequest .list⟩
  toLeft := some ((w.socket i).getD [])
  toRight := w.inbox i

/-- The file `read_file` finds under a name. -/
def found (w : Household ι) (i : ι) (file : Name) : Option File :=
  (w.client i).files.machine.stat ((w.client i).files.readPath file)

/-- What the server holds. -/
def contents (w : Household ι) (q : Path) : Name → Option Contents := contentsOf (w.server.view q)

/-- What a session changes on the server, if the client has returned `a`. -/
def acts (w : Household ι) (q : Path) (i : ι) : Deed → Bool → List (Act Name Contents)
  | .command (.upload file), true =>
    ((w.found i file).map fun x ↦ .put (soughtName file) x.contents).toList
  | .command (.delete file), _ => [.drop (soughtName file)]
  | .sync events, _ =>
    let files := (w.client i).files
    ((files.machine.resolve files.syncDir).map fun p ↦
      (w.server.replica q).heedAll files (files.view p) events).getD []
  | _, _ => []

/-- The names lead directly into the sync directory of the server, what is uploaded is counted right
or announced with no packets, the command is a harmless one, and the events are a watcher's. -/
def Proper (w : Household ι) (i : ι) : Deed → Prop
  | .command (.upload file) =>
    Plain (soughtName file) ∧ ∀ x, w.found i file = some x → (w.client i).files.CanSend x
  | .command (.download file _) => Plain (soughtName file)
  | .command (.delete file) =>
    Plain (soughtName file) ∧ (Command.delete file).Harmless (w.desk i)
  | .command .ls => Command.ls.Harmless (w.desk i)
  | .sync events => ∃ p, FlatDir (w.client i).files.machine (w.client i).files.syncDir p ∧
      ∀ event ∈ events, Watched (w.client i).files p event

/-- The invariant between two deeds. -/
structure Sound (w : Household ι) (q : Path) : Prop where
  /-- Nothing is unread on a socket that stays in use. -/
  tidy : ∀ i, (w.desk i).Tidy
  /-- The sync directory of the server is flat. -/
  flat : FlatDir w.server.machine w.server.syncDir q
  /-- The server can send all its files. -/
  counted : Replica.Counted w.server (w.server.view q)
  /-- The packets are counted alike everywhere. -/
  reported : ∀ i, (w.client i).files.reported = w.server.reported
  /-- The server counts packets the way the source does. -/
  counts : w.server.reported = countPackets

/-- What is left of a session that has changed the server by these acts. -/
structure Leaves (w : Household ι) (q : Path) (i : ι) (acts : List (Act Name Contents))
    (y : PeerPair Bool Bool) : Prop where
  /-- The channels are empty. -/
  tidy : (Desk.after y).Tidy
  /-- The sync directory of the server is flat. -/
  flat : FlatDir y.right.host.machine y.right.host.syncDir q
  /-- The server holds what the acts make of what it held. -/
  contents : contentsOf (y.right.host.view q) = KeyedStore.after (w.contents q) acts
  /-- The server can send all its files. -/
  counted : Replica.Counted y.right.host (y.right.host.view q)
  /-- The server counts as it did. -/
  server : y.right.host.reported = w.server.reported
  /-- The client counts packets the way it did before. -/
  client : y.left.host.files.reported = (w.client i).files.reported

variable [DecidableEq ι]

/-- The household after a session. -/
def leave (w : Household ι) (i : ι) (y : PeerPair Bool Bool) : Household ι where
  client := Function.update w.client i y.left.host
  socket := Function.update w.socket i y.toLeft
  inbox := Function.update w.inbox i y.toRight
  server := y.right.host

/-- The household after some change of the files of a device. -/
def edit (w : Household ι) (i : ι) (m : Machine) : Household ι where
  client := Function.update w.client i
    { w.client i with files := { (w.client i).files with machine := m } }
  socket := w.socket
  inbox := w.inbox
  server := w.server

/-- The steps of the household, with what they change on the server. -/
inductive Step (q : Path) : Household ι → List (Act Name Contents) → Household ι → Prop
  | edit (w : Household ι) (i : ι) (m : Machine) : Step q w [] (w.edit i m)
  | deed {w : Household ι} {i : ι} {deed : Deed} {y : PeerPair Bool Bool} {a b : Bool}
      (hproper : w.Proper i deed) (hreach : ReflTransGen (Pair.Step peers) (w.start i deed) y)
      (hret : y.Returned a b) : Step q w (w.acts q i deed a) (w.leave i y)

/-- A run, with what it has changed on the server. -/
inductive Run (q : Path) : Household ι → List (Act Name Contents) → Household ι → Prop
  | nil (w : Household ι) : Run q w [] w
  | snoc {w w' w'' : Household ι} {acts acts' : List (Act Name Contents)} (hr : Run q w acts w')
      (hs : Step q w' acts' w'') : Run q w (acts ++ acts') w''

/-! ## One session

For each deed the states in which its session can end, whatever the schedule.  All of them are alike
in what the household keeps, which is what makes `Sound.leaves` a statement about one state. -/

section Files

variable {h s : FileHost} {f : Name} {b : Bool}

/-- `read_file` throws if it does not find a file. -/
theorem readFile_error_of_stat (hs : h.machine.stat (h.readPath f) = none) :
    ∃ e, h.readFile f = .error e := by
  rw [FileHost.readFile, hs]
  split <;> exact ⟨_, rfl⟩

/-- `get_file_info` gives the name it looks for. -/
theorem getFileInfo_name {info : FileInfo} (hinfo : h.getFileInfo f = .ok info) :
    info.name = soughtName f :=
  fileInfo_name hinfo

theorem reported_deleteFile (hdel : h.deleteFile f = .ok (b, s)) : s.reported = h.reported := by
  rw [FileHost.deleteFile] at hdel
  split at hdel
  · split at hdel
    · cases hdel
      rfl
    · cases hdel
  · cases hdel
    rfl

theorem reported_keptAfter (c : Client.Host) (f : Name) :
    (keptAfter c f).files.reported = c.files.reported := by
  rw [keptAfter]
  split
  · rfl
  · rw [FileHost.copyFileToSyncDir]
    split <;> rfl

end Files

/-- A session in which both sides return is where the session ends. -/
theorem eq_of_returned {x t y : PeerPair Bool Bool} (ht : x.EndsIn peers t) {a b : Bool}
    (hreach : ReflTransGen (Pair.Step peers) x y) (hret : y.Returned a b) : t = y :=
  hret.terminal.eq_of_reaches (ht.settlesIn.every y hreach)

/-- A session that ends in an exception of the client does not return. -/
theorem not_returned_of_throw {x t y : PeerPair Bool Bool} (ht : x.EndsIn peers t) {e : Exn}
    (he : t.left.prog = .throw e) {a b : Bool} (hreach : ReflTransGen (Pair.Step peers) x y) :
    ¬ y.Returned a b := by
  intro hret
  obtain rfl := eq_of_returned ht hreach hret
  rw [hret.1] at he
  cases he

section Sessions

variable {w : Household ι} {q : Path} {i : ι} {file path : Name} {info : FileInfo} {x : File}

omit [DecidableEq ι] in
/-- Sessions begin with empty channels. -/
theorem Sound.start_eq (hw : w.Sound q) (i : ι) (deed : Deed) :
    w.start i deed = ⟨⟨w.client i, deed.program⟩,
      ⟨w.server, RequestHandler.handleRequest deed.req⟩, some [], some [], [], []⟩ := by
  have hinbox : w.inbox i = some [] := (hw.tidy i).inbox
  rw [start, hinbox]
  rcases (hw.tidy i).socket with hs | hs <;> (change w.socket i = _ at hs; rw [hs]; rfl)

omit [DecidableEq ι] in
theorem Sound.startPrinting_eq (hw : w.Sound q) (i : ι) :
    w.startPrinting i = lsSession (w.client i) w.server := by
  have hinbox : w.inbox i = some [] := (hw.tidy i).inbox
  rw [startPrinting, hinbox]
  rcases (hw.tidy i).socket with hs | hs <;> (change w.socket i = _ at hs; rw [hs]; rfl)

omit [DecidableEq ι] in
/-- A session that leaves the server as it is. -/
theorem Sound.leaves_same (hw : w.Sound q) {y : PeerPair Bool Bool}
    (htidy : (Desk.after y).Tidy) (hserver : y.right.host = w.server)
    (hclient : y.left.host.files.reported = (w.client i).files.reported) :
    w.Leaves q i [] y where
  tidy := htidy
  flat := hserver ▸ hw.flat
  contents := by rw [hserver]; rfl
  counted := hserver ▸ hw.counted
  server := by rw [hserver]
  client := hclient

omit [DecidableEq ι] in
/-- How an upload ends that finds its file. -/
theorem Sound.upload_endsIn (hw : w.Sound q) (hx : w.found i file = some x)
    (hinfo : (w.client i).files.getFileInfo file = .ok info)
    (hsend : (w.client i).files.CanSend x) :
    (w.start i (.command (.upload file))).EndsIn peers
      (if (w.client i).files.announced x.contents = 0 then
        ⟨⟨w.client i, .ret false⟩, ⟨w.server, .ret false⟩, some [], some [], [], []⟩
      else ⟨⟨keptAfter (w.client i) file, .ret true⟩,
          ⟨w.server.store info.name [] (packetsOf x.contents), .ret true⟩,
          none, some [], [], []⟩) := by
  have hread := FileHost.readFile_of_stat hx
  have hidle : (w.client i).syncing = false := (hw.tidy i).idle
  rw [hw.start_eq]
  simp only [Deed.program, Deed.req, Command.program, Command.req]
  split
  · rename_i hzero
    rw [← bind_ret (Client.sendFile file), handleRequest_receive, upload_refused hread hinfo hzero]
    exact ⟨.refl, Pair.Returned.terminal ⟨rfl, rfl⟩⟩
  · rename_i hpos
    have hcount := hsend.resolve_left hpos
    exact (Bropdox.upload_endsIn hidle hread hinfo ⟨hcount.pos, hcount.eq_length⟩ _).mpr
      ⟨.refl, Pair.Returned.terminal ⟨rfl, rfl⟩⟩

omit [DecidableEq ι] in
/-- A client that has returned from an upload has read its file and described it: otherwise an
exception would have ended its program. -/
theorem Sound.upload_described (hw : w.Sound q) {y : PeerPair Bool Bool} {a b : Bool}
    (hreach : ReflTransGen (Pair.Step peers) (w.start i (.command (.upload file))) y)
    (hret : y.Returned a b) :
    ∃ x info, w.found i file = some x ∧ (w.client i).files.getFileInfo file = .ok info := by
  have hthrow : ∀ e, (∀ t, (w.start i (.command (.upload file))).EndsIn peers t ↔
      Pair.EndsIn peers ⟨⟨w.client i, .throw e⟩, ⟨w.server, RequestHandler.handleRequest .receive⟩,
        some [], some [], [], []⟩ t) → False := fun e he ↦
    not_returned_of_throw ((he _).mpr
      ⟨.refl, Pair.terminal_of_stuck (Endpoint.step_throw ..) rfl⟩) rfl hreach hret
  cases hx : w.found i file with
  | none =>
    obtain ⟨e, hread⟩ := readFile_error_of_stat hx
    refine (hthrow e fun t ↦ ?_).elim
    rw [hw.start_eq, Deed.program, Command.program, Client.sendFile, bind_eq,
      left_file_error (FileOp.exec_readFile_error hread)]
    rfl
  | some x =>
    have hread := FileHost.readFile_of_stat hx
    cases hinfo : (w.client i).files.getFileInfo file with
    | error e =>
      refine (hthrow e fun t ↦ ?_).elim
      rw [hw.start_eq, Deed.program, Command.program, Client.sendFile, bind_eq,
        left_query (FileOp.exec_readFile hread), bind_eq,
        left_file_error (FileOp.exec_getFileInfo_error hinfo)]
      rfl
    | ok info => exact ⟨x, info, rfl, rfl⟩

omit [DecidableEq ι] in
/-- What is left of an upload that has been stored. -/
theorem Sound.stored_leaves (hw : w.Sound q) (hplain : Plain (soughtName file))
    (hx : w.found i file = some x) (hinfo : (w.client i).files.getFileInfo file = .ok info)
    (hcount : WellCounted w.server x.contents) :
    w.Leaves q i (w.acts q i (.command (.upload file)) true)
      ⟨⟨keptAfter (w.client i) file, .ret true⟩,
        ⟨w.server.store info.name [] (packetsOf x.contents), .ret true⟩,
        none, some [], [], []⟩ := by
  have hidle : (w.client i).syncing = false := (hw.tidy i).idle
  have hname : soughtName info.name = soughtName file := by
    rw [getFileInfo_name hinfo, soughtName_plain hplain]
  have hm : (w.server.store info.name [] (packetsOf x.contents)).Mirrors q
      ((w.server.replica q).save (soughtName file) x.contents) :=
    FileHost.Mirrors.store ⟨hw.flat, rfl, rfl⟩ hname hplain x.contents
  refine ⟨⟨.inl rfl, rfl, (keptAfter_syncing ..).trans hidle⟩, hm.flat, ?_, ?_, rfl,
    reported_keptAfter ..⟩
  · rw [hm.view_eq, Replica.save_store, contentsOf_save, acts, hx]
    rfl
  · refine Replica.Counted.congr ?_ (h := w.server) rfl
    rw [hm.view_eq, Replica.save_store]
    exact Replica.Counted.save hw.counted hcount

omit [DecidableEq ι] in
theorem Sound.upload_leaves (hw : w.Sound q) (hp : w.Proper i (.command (.upload file)))
    {y : PeerPair Bool Bool} {a b : Bool}
    (hreach : ReflTransGen (Pair.Step peers) (w.start i (.command (.upload file))) y)
    (hret : y.Returned a b) : w.Leaves q i (w.acts q i (.command (.upload file)) a) y := by
  obtain ⟨x, info, hx, hinfo⟩ := hw.upload_described hreach hret
  have hend := hw.upload_endsIn hx hinfo (hp.2 x hx)
  split at hend
  · -- refused
    obtain rfl := eq_of_returned hend hreach hret
    obtain rfl : false = a := Program.ret.inj hret.1
    exact hw.leaves_same ⟨.inr rfl, rfl, (hw.tidy i).idle⟩ rfl rfl
  · -- stored
    next hpos =>
    obtain rfl := eq_of_returned hend hreach hret
    obtain rfl : true = a := Program.ret.inj hret.1
    exact hw.stored_leaves hp.1 hx hinfo
      (((hp.2 x hx).resolve_left hpos).congr (hw.reported i).symm)

omit [DecidableEq ι] in
/-- How a download ends: the client has stored the file, or it has been told that there is none. -/
theorem Sound.download_endsIn (hw : w.Sound q) (path : Name) (hf : Plain (soughtName file))
    (hinfo : (w.client i).files.getFileInfo file = .ok info) :
    (w.start i (.command (.download file path))).EndsIn peers
      (match w.server.view q (soughtName file) with
      | some x => ⟨⟨{ w.client i with
            files := (w.client i).files.store file path (packetsOf x.contents) }, .ret true⟩,
          ⟨w.server, .ret true⟩, none, some [], [], []⟩
      | none => ⟨⟨w.client i, .ret false⟩, ⟨w.server, .ret true⟩, none, some [], [], []⟩) := by
  have hidle : (w.client i).syncing = false := (hw.tidy i).idle
  have hname := getFileInfo_name hinfo
  have hpath : w.server.machine.resolve (w.server.readPath info.name)
      = some (q ++ [soughtName file]) := by
    rw [hname]
    exact FileHost.readPath_plain hw.flat hf
  have hask : ∀ t, (w.start i (.command (.download file path))).EndsIn peers t ↔
      Pair.EndsIn peers ⟨⟨w.client i, (Client.receiveRequested file path).bind .ret⟩,
        ⟨w.server, (RequestHandler.sendFile info.name).bind fun _ ↦ .ret true⟩,
        some [], some [], [], []⟩ t := by
    intro t
    rw [hw.start_eq]
    simp only [Deed.program, Deed.req, Command.program, Command.req, Client.getFile,
      RequestHandler.handleRequest, bind_ret]
    exact request_endsIn hinfo
  cases hx : w.server.view q (soughtName file) with
  | none =>
    refine (hask _).mpr ((download_absent (FileHost.readFile_none hw.flat hpath hx)).mpr ?_)
    simp only [left_resetUnlessSyncing, socketAfter, hidle, Bool.false_eq_true, if_false]
    exact ⟨.refl, Pair.Returned.terminal ⟨rfl, rfl⟩⟩
  | some x =>
    have hcount := hw.counted _ x hx
    have hinfo' : w.server.getFileInfo info.name
        = .ok (infoOf (w.server.view q) (soughtName file)) := by
      rw [hname]
      exact FileHost.getFileInfo_eq hw.flat (soughtName_plain hf) hf
    refine (hask _).mpr ((download_stored (FileHost.readFile_eq hw.flat hpath hx) hinfo'
      hcount.pos hcount.eq_length le_rfl).mpr ?_)
    simp only [left_resetUnlessSyncing, socketAfter, hidle, Bool.false_eq_true, if_false,
      List.take_length]
    exact ⟨.refl, Pair.Returned.terminal ⟨rfl, rfl⟩⟩

omit [DecidableEq ι] in
theorem Sound.download_leaves (hw : w.Sound q)
    (hp : w.Proper i (.command (.download file path))) {y : PeerPair Bool Bool} {a b : Bool}
    (hreach : ReflTransGen (Pair.Step peers) (w.start i (.command (.download file path))) y)
    (hret : y.Returned a b) : w.Leaves q i [] y := by
  have hidle : (w.client i).syncing = false := (hw.tidy i).idle
  cases hinfo : (w.client i).files.getFileInfo file with
  | error e =>
    refine absurd hret (not_returned_of_throw (t := ⟨⟨w.client i, .throw e⟩,
      ⟨w.server, RequestHandler.handleRequest .send⟩, some [], some [], [], []⟩) ?_ rfl hreach)
    rw [hw.start_eq, Deed.program, Command.program, Client.getFile, bind_eq]
    exact (left_file_error (FileOp.exec_getFileInfo_error hinfo)).mpr
      ⟨.refl, Pair.terminal_of_stuck (Endpoint.step_throw ..) rfl⟩
  | ok info =>
    have hend := hw.download_endsIn path hp hinfo
    split at hend <;> obtain rfl := eq_of_returned hend hreach hret
    · exact hw.leaves_same ⟨.inl rfl, rfl, hidle⟩ rfl rfl
    · exact hw.leaves_same ⟨.inl rfl, rfl, hidle⟩ rfl rfl

omit [DecidableEq ι] in
/-- How the deletion of a file ends that the client has: both have deleted it, and the client says
whether the server had it. -/
theorem Sound.delete_endsIn (hw : w.Sound q) (hf : Plain (soughtName file))
    (hinfo : (w.client i).files.getFileInfo file = .ok info) {s : FileHost}
    (hgone : (w.client i).files.deleteFile file = .ok (true, s)) :
    ∃ s', s'.Mirrors q ((w.server.replica q).remove (soughtName file)) ∧
      w.server.SameSettings s' ∧ (w.start i (.command (.delete file))).EndsIn peers
        ⟨⟨{ w.client i with files := s }, .ret (w.server.view q (soughtName file)).isSome⟩,
          ⟨s', .ret true⟩, none, some [], [], []⟩ := by
  have hidle : (w.client i).syncing = false := (hw.tidy i).idle
  obtain ⟨s', hdel, hm, hset⟩ :=
    FileHost.Mirrors.delete (r := w.server.replica q) ⟨hw.flat, rfl, rfl⟩ hf
  rw [← getFileInfo_name hinfo] at hdel
  refine ⟨s', hm, hset, ?_⟩
  rw [hw.start_eq, Deed.program, Deed.req, Command.program, Command.req, Client.deleteFile,
    RequestHandler.handleRequest]
  refine (request_endsIn hinfo).mpr ?_
  simp only [left_isSyncing, hidle, bind_eq, Bool.not_false, if_true]
  rw [left_file (o := .deleteFile file) hgone]
  simp only [Bool.not_true, Bool.false_eq_true, if_false]
  refine (deleted_endsIn hdel _).mpr ?_
  simp only [Client.waitAck, bind_eq, Program.bind_assoc, left_wait, expect_some, ret_bind, pure_eq,
    left_resetUnlessSyncing, socketAfter, hidle, Bool.false_eq_true, if_false,
    getFileInfo_name hinfo]
  exact ⟨.refl, Pair.Returned.terminal ⟨rfl, rfl⟩⟩

omit [DecidableEq ι] in
theorem Sound.delete_leaves (hw : w.Sound q) (hp : w.Proper i (.command (.delete file)))
    {y : PeerPair Bool Bool} {a b : Bool}
    (hreach : ReflTransGen (Pair.Step peers) (w.start i (.command (.delete file))) y)
    (hret : y.Returned a b) : w.Leaves q i [.drop (soughtName file)] y := by
  have hidle : (w.client i).syncing = false := (hw.tidy i).idle
  cases hinfo : (w.client i).files.getFileInfo file with
  | error e =>
    refine absurd hret (not_returned_of_throw (t := ⟨⟨w.client i, .throw e⟩,
      ⟨w.server, RequestHandler.handleRequest .del⟩, some [], some [], [], []⟩) ?_ rfl hreach)
    rw [hw.start_eq, Deed.program, Command.program, Client.deleteFile, bind_eq]
    exact (left_file_error (FileOp.exec_getFileInfo_error hinfo)).mpr
      ⟨.refl, Pair.terminal_of_stuck (Endpoint.step_throw ..) rfl⟩
  | ok info =>
    have hcases := FileHost.deleteFile_of_exists (h := (w.client i).files) hp.2
    rcases hcases with ⟨s, hgone⟩ | hgone
    · obtain ⟨s', hm, hset, hend⟩ := hw.delete_endsIn hp.1 hinfo hgone
      obtain rfl := eq_of_returned hend hreach hret
      refine ⟨⟨.inl rfl, rfl, hidle⟩, hm.flat, ?_, ?_, hset.reported, reported_deleteFile hgone⟩
      · rw [hm.view_eq, Replica.remove_store, contentsOf_remove]
        rfl
      · refine Replica.Counted.congr ?_ (h := w.server) hset.reported
        rw [hm.view_eq]
        exact Replica.Counted.remove hw.counted _
    · -- an exception escapes on the client once it has asked
      obtain ⟨s', hdel, -, -⟩ :=
        FileHost.Mirrors.delete (r := w.server.replica q) ⟨hw.flat, rfl, rfl⟩ hp.1
      refine absurd hret (not_returned_of_throw (t := ⟨⟨w.client i, .throw .filesystemError⟩,
        ⟨s', .ret true⟩, some [parcel .ack ⟨(w.server.view q (soughtName file)).isSome⟩], some [],
        [], []⟩) ?_ rfl hreach)
      rw [hw.start_eq, Deed.program, Deed.req, Command.program, Command.req, Client.deleteFile,
        RequestHandler.handleRequest]
      refine (request_endsIn hinfo).mpr ?_
      simp only [left_isSyncing, hidle, bind_eq, Bool.not_false, if_true]
      rw [left_file_error (o := .deleteFile file) hgone]
      rw [← getFileInfo_name hinfo] at hdel ⊢
      exact (deleted_endsIn hdel _).mpr
        ⟨.refl, Pair.terminal_of_stuck (Endpoint.step_throw ..) (Endpoint.step_ret ..)⟩

omit [DecidableEq ι] in
/-- How a listing ends: nothing has changed but the client's socket. -/
theorem Sound.ls_endsIn (hw : w.Sound q) (hp : w.Proper i (.command .ls)) :
    ∃ socket, (socket = none ∨ socket = some []) ∧ (w.start i (.command .ls)).EndsIn peers
      ⟨⟨w.client i, .ret true⟩, ⟨w.server, .ret true⟩, socket, some [], [], []⟩ := by
  have hidle : (w.client i).syncing = false := (hw.tidy i).idle
  have hlist := FileHost.getFileInfoList_eq hw.flat
  generalize (FlatDir.names w.server.machine q).map (FileHost.entryOf (w.server.view q)) = entries
    at hlist
  refine ⟨socketAfterList (w.client i) entries, ?_, ?_⟩
  · rw [socketAfterList, socketAfter, hidle]
    split
    · rename_i hzero
      exact .inr (by rw [hp entries hlist hzero]; rfl)
    · exact .inl rfl
  · -- the command is the session that prints, without what it prints
    have hend := (printServerFiles_endsIn (L := peers) (h := w.client i) hlist _).mpr
      ⟨.refl, Pair.Returned.terminal ⟨rfl, rfl⟩⟩
    have hret := Pair.EndsIn.thenReturn hend rfl Prod.fst
    rw [Pair.thenLeft, Client.printServerFiles_fst] at hret
    rw [hw.start_eq]
    exact hret

omit [DecidableEq ι] in
theorem Sound.ls_leaves (hw : w.Sound q) (hp : w.Proper i (.command .ls))
    {y : PeerPair Bool Bool} {a b : Bool}
    (hreach : ReflTransGen (Pair.Step peers) (w.start i (.command .ls)) y)
    (hret : y.Returned a b) : w.Leaves q i [] y := by
  obtain ⟨socket, hsocket, hend⟩ := hw.ls_endsIn hp
  obtain rfl := eq_of_returned hend hreach hret
  exact hw.leaves_same ⟨hsocket, rfl, (hw.tidy i).idle⟩ rfl rfl

omit [DecidableEq ι] in
theorem Sound.sync_leaves (hw : w.Sound q) {events : List FileEvent}
    (hp : w.Proper i (.sync events)) {y : PeerPair Bool Bool} {a b : Bool}
    (hreach : ReflTransGen (Pair.Step peers) (w.start i (.sync events)) y)
    (hret : y.Returned a b) : w.Leaves q i (w.acts q i (.sync events) a) y := by
  obtain ⟨p, hflat, hwatched⟩ := hp
  have hc : (w.client i).files.Mirrors p ((w.client i).files.replica p) := ⟨hflat, rfl, rfl⟩
  have hr : w.server.Mirrors q (w.server.replica q) := ⟨hw.flat, rfl, rfl⟩
  have hstart : w.start i (.sync events) = syncStart (w.client i) w.server events :=
    hw.start_eq i _
  rw [hstart] at hreach
  obtain ⟨r', htake, hget⟩ := (sync_completes_iff hc hr hwatched).mp
    ⟨y, a, b, ⟨hreach, hret.terminal⟩, hret⟩
  obtain ⟨s, s', names, hm, hset, hm', hset', -, hend⟩ := sync_endsIn hc hr hwatched htake hget
  obtain rfl := eq_of_returned hend hreach hret
  have hacts : w.acts q i (.sync events) a = (w.server.replica q).heedAll (w.client i).files
      ((w.client i).files.view p) events := by
    simp only [acts, hflat.resolves, Option.map_some, Option.getD_some]
  refine ⟨⟨.inr rfl, rfl, rfl⟩, hm.flat, ?_, ?_, hset.reported, hset'.reported⟩
  · rw [hacts, hm.view_eq]
    exact Replica.contentsOf_takeEvents htake
  · refine Replica.Counted.congr ?_ (h := (w.client i).files)
      (hset.reported.trans (hw.reported i).symm)
    rw [hm.view_eq]
    exact Replica.Counted.takeEvents (Replica.Counted.congr hw.counted (hw.reported i)) htake

omit [DecidableEq ι] in
/-- **One session**: whatever it is, it changes the server by its acts. -/
theorem Sound.leaves (hw : w.Sound q) {deed : Deed} (hp : w.Proper i deed)
    {y : PeerPair Bool Bool} {a b : Bool}
    (hreach : ReflTransGen (Pair.Step peers) (w.start i deed) y) (hret : y.Returned a b) :
    w.Leaves q i (w.acts q i deed a) y := by
  cases deed with
  | command cmd =>
    cases cmd with
    | upload file => exact hw.upload_leaves hp hreach hret
    | download file path => exact hw.download_leaves hp hreach hret
    | delete file => exact hw.delete_leaves hp hreach hret
    | ls => exact hw.ls_leaves hp hreach hret
  | sync events => exact hw.sync_leaves hp hreach hret

end Sessions

/-! ## Runs

The invariant through a step and through a run, and that a deed which does not fail on the client's
own files completes. -/

section Runs

variable {w w' : Household ι} {q : Path} {i : ι} {acts : List (Act Name Contents)}
  {file path : Name} {info : FileInfo}

theorem Sound.edit (hw : w.Sound q) (i : ι) (m : Machine) : (w.edit i m).Sound q where
  tidy j := by
    by_cases hj : j = i
    · subst hj
      exact ⟨(hw.tidy j).socket, (hw.tidy j).inbox, by
        simpa [desk, Household.edit] using (hw.tidy j).idle⟩
    · simpa [desk, Household.edit, hj] using hw.tidy j
  flat := hw.flat
  counted := hw.counted
  reported j := by
    by_cases hj : j = i
    · subst hj
      simpa [Household.edit] using hw.reported j
    · simpa [Household.edit, hj] using hw.reported j
  counts := hw.counts

theorem Sound.leave (hw : w.Sound q) {y : PeerPair Bool Bool} (hl : w.Leaves q i acts y) :
    (w.leave i y).Sound q where
  tidy j := by
    by_cases hj : j = i
    · subst hj
      obtain ⟨hsocket, hinbox, hidle⟩ := hl.tidy
      exact ⟨by simpa [desk, Household.leave, Desk.after] using hsocket,
        by simpa [desk, Household.leave, Desk.after] using hinbox,
        by simpa [desk, Household.leave, Desk.after] using hidle⟩
    · obtain ⟨hsocket, hinbox, hidle⟩ := hw.tidy j
      exact ⟨by simpa [desk, Household.leave, hj] using hsocket,
        by simpa [desk, Household.leave, hj] using hinbox,
        by simpa [desk, Household.leave, hj] using hidle⟩
  flat := hl.flat
  counted := hl.counted
  reported j := by
    by_cases hj : j = i
    · subst hj
      simpa [Household.leave] using (hl.client.trans (hw.reported j)).trans hl.server.symm
    · simpa [Household.leave, hj] using (hw.reported j).trans hl.server.symm
  counts := hl.server.trans hw.counts

/-- What one step does. -/
theorem Sound.step (hw : w.Sound q) (hs : Step q w acts w') :
    w'.Sound q ∧ w'.contents q = KeyedStore.after (w.contents q) acts := by
  cases hs with
  | edit i m => exact ⟨hw.edit i m, rfl⟩
  | deed hproper hreach hret =>
    have hl := hw.leaves hproper hreach hret
    exact ⟨hw.leave hl, hl.contents⟩

/-- What a run does. -/
theorem Sound.run (hw : w.Sound q) (hrun : Run q w acts w') :
    w'.Sound q ∧ w'.contents q = KeyedStore.after (w.contents q) acts := by
  induction hrun with
  | nil => exact ⟨hw, rfl⟩
  | snoc _ hs ih =>
    obtain ⟨hw', hcontents⟩ := ih
    obtain ⟨hw'', hcontents'⟩ := hw'.step hs
    exact ⟨hw'', by rw [hcontents', hcontents, KeyedStore.after_append]⟩

/-- The operations that the client carries out on its own files succeed. -/
def Ready (w : Household ι) (q : Path) (i : ι) : Deed → Prop
  | .command (.upload file) =>
    (w.found i file).isSome ∧ ∃ info, (w.client i).files.getFileInfo file = .ok info
  | .command (.download file _) => ∃ info, (w.client i).files.getFileInfo file = .ok info
  | .command (.delete file) => (∃ info, (w.client i).files.getFileInfo file = .ok info) ∧
      ∃ s, (w.client i).files.deleteFile file = .ok (true, s)
  | .command .ls => True
  | .sync events => ∀ p, FlatDir (w.client i).files.machine (w.client i).files.syncDir p →
      ∃ r', (w.server.replica q).takeEvents (w.client i).files ((w.client i).files.view p) events
        = some r'

omit [DecidableEq ι] in
/-- A file that is counted right is listed with some packets. -/
theorem listedCount_ne_zero {h : FileHost} (hh : h.reported = countPackets) {c : Contents}
    (hc : WellCounted h c) : listedCount c.bytes.length ≠ 0 := by
  have hpos := hc.pos
  rwa [FileHost.announced, hh] at hpos

omit [DecidableEq ι] in
/-- From a sound household every deed that does not fail on the client's own files completes. -/
theorem Sound.completes (hw : w.Sound q) {deed : Deed} (hp : w.Proper i deed)
    (hready : w.Ready q i deed) : (w.start i deed).Completes peers := by
  cases deed with
  | command cmd =>
    cases cmd with
    | upload file =>
      obtain ⟨hfound, info, hinfo⟩ := hready
      obtain ⟨x, hx⟩ := Option.isSome_iff_exists.mp hfound
      have hend := hw.upload_endsIn hx hinfo (hp.2 x hx)
      split at hend
      · exact ⟨_, false, false, hend, rfl, rfl⟩
      · exact ⟨_, true, true, hend, rfl, rfl⟩
    | download file path =>
      obtain ⟨info, hinfo⟩ := hready
      have hend := hw.download_endsIn path hp hinfo
      split at hend
      · exact ⟨_, true, true, hend, rfl, rfl⟩
      · exact ⟨_, false, true, hend, rfl, rfl⟩
    | delete file =>
      obtain ⟨⟨info, hinfo⟩, s, hgone⟩ := hready
      obtain ⟨s', -, -, hend⟩ := hw.delete_endsIn hp.1 hinfo hgone
      exact ⟨_, _, true, hend, rfl, rfl⟩
    | ls =>
      obtain ⟨socket, -, hend⟩ := hw.ls_endsIn hp
      exact ⟨_, true, true, hend, rfl, rfl⟩
  | sync events =>
    obtain ⟨p, hflat, hwatched⟩ := hp
    obtain ⟨r', htake⟩ := hready p hflat
    have hcounted := Replica.Counted.takeEvents
      (Replica.Counted.congr hw.counted (hw.reported i)) htake
    rw [hw.start_eq]
    refine (sync_completes_iff (c := (w.client i).files.replica p) ⟨hflat, rfl, rfl⟩
      ⟨hw.flat, rfl, rfl⟩ hwatched).mpr ⟨r', htake, fun f x hx ↦ ?_⟩
    have hx' := hcounted f x hx
    exact ⟨listedCount_ne_zero ((hw.reported i).trans hw.counts) hx',
      fun _ ↦ hx'.congr (hw.reported i).symm⟩

/-- A whole file is stored. -/
theorem holds_store_packets {h : FileHost} {file path : Name} {p : Path} (c : Contents)
    (hopen : h.machine.resolve (h.writePath file path) = some p)
    (hdir : h.machine.disk.isDir p = false) : Holds (h.store file path (packetsOf c)) p c := by
  have hlen : c.bytes.length ≤ (packetsOf c).length * packetSize := by
    have hmod := Nat.mod_lt c.bytes.length (by decide : 0 < packetSize)
    have hdiv := Nat.div_add_mod c.bytes.length packetSize
    rw [length_packetsOf, Nat.add_mul, Nat.one_mul, Nat.mul_comm]
    omega
  have hholds := (holds_store hopen hdir (packetsOf c).length).mpr hlen
  rwa [List.take_length] at hholds

end Runs
end Household

/-! ## What the devices see

The four main results, read off the invariant and the history of the run. -/

section Results

variable {ι : Type} [DecidableEq ι] {w w' : Household ι} {q : Path}
  {acts : List (Act Name Contents)}

/-- **The server is a keyed store**: after every run of commands and synchronisations of any
devices, between which their files change at will, it holds what the history of the run makes of
what it held; nothing is unread on a socket that stays in use, and the server can send all its
files. -/
theorem household_keeps_store (hw : w.Sound q) (hrun : Household.Run q w acts w') :
    w'.Sound q ∧ w'.contents q = KeyedStore.after (w.contents q) acts :=
  hw.run hrun

/-- **No run leads to a state in which a later session gets stuck**: whatever has been done, every
deed that does not fail on the client's own files is carried out to its end. -/
theorem household_completes (hw : w.Sound q) (hrun : Household.Run q w acts w') {i : ι}
    {deed : Deed} (hp : w'.Proper i deed) (hready : w'.Ready q i deed) :
    (w'.start i deed).Completes peers :=
  (hw.run hrun).1.completes hp hready

/-- **A download gives what was put last**: whichever device asks for a name, after whatever run, it
ends up with the contents that were put under it last, or is told that there is no such file. -/
theorem download_yields_last (hw : w.Sound q) (hrun : Household.Run q w acts w') {i : ι}
    (file path : Name) {info : FileInfo} (hf : Plain (soughtName file))
    (hinfo : (w'.client i).files.getFileInfo file = .ok info) :
    ∃ t b, (w'.start i (.command (.download file path))).SettlesIn peers t ∧ t.Returned b true ∧
      (∀ y, ReflTransGen (Pair.Step peers) (w'.start i (.command (.download file path))) y →
        ¬ y.Confused) ∧
      (∀ c, (LastAbout (soughtName file) acts (.put (soughtName file) c) ∨
          Untouched (soughtName file) acts ∧ w.contents q (soughtName file) = some c) →
        b = true ∧ ∀ p, (w'.client i).files.machine.resolve
            ((w'.client i).files.writePath file path) = some p →
          (w'.client i).files.machine.disk.isDir p = false → Holds t.left.host.files p c) ∧
      ((LastAbout (soughtName file) acts (.drop (soughtName file)) ∨
          Untouched (soughtName file) acts ∧ w.contents q (soughtName file) = none) →
        b = false ∧ t.left.host = w'.client i) := by
  obtain ⟨hw', hcontents⟩ := hw.run hrun
  have hat := congrFun hcontents (soughtName file)
  have hend := hw'.download_endsIn path hf hinfo
  simp only [← KeyedStore.after_eq_some_iff, ← KeyedStore.after_eq_none_iff, ← hat]
  rw [Household.contents, contentsOf]
  cases hx : w'.server.view q (soughtName file) with
  | none =>
    rw [hx] at hend
    exact ⟨_, false, hend.settlesIn, ⟨rfl, rfl⟩,
      fun y hy ↦ hend.settlesIn.not_confused ⟨rfl, rfl⟩ hy, fun c hc ↦ by simp at hc,
      fun _ ↦ ⟨rfl, rfl⟩⟩
  | some x =>
    rw [hx] at hend
    refine ⟨_, true, hend.settlesIn, ⟨rfl, rfl⟩,
      fun y hy ↦ hend.settlesIn.not_confused ⟨rfl, rfl⟩ hy, fun c hc ↦ ⟨rfl, fun p hopen hdir ↦ ?_⟩,
      fun hnone ↦ by simp at hnone⟩
    obtain rfl : x.contents = c := by simpa using hc
    exact Household.holds_store_packets x.contents hopen hdir

/-- **A listing shows what was put and not dropped since**, each name once, if their number fits the
32 bits it is announced in. -/
theorem ls_lists_history (hw : w.Sound q) (hrun : Household.Run q w acts w') {i : ι}
    (hlt : (FlatDir.names w'.server.machine q).length < 2 ^ 32) :
    ∃ (t : PeerPair (Bool × List Line) Bool) (fs : List Name),
      (w'.startPrinting i).SettlesIn peers t ∧
      t.Returned (true, fs.map fun f ↦ listingLine f ((w'.server.view q).modifiedTime f)) true ∧
      fs.Nodup ∧ ∀ f, f ∈ fs ↔ (∃ c, LastAbout f acts (.put f c)) ∨
        Untouched f acts ∧ ∃ c, w.contents q f = some c := by
  obtain ⟨hw', hcontents⟩ := hw.run hrun
  obtain ⟨t, fs, hend, hret, -, -, -, hnodup, hmem⟩ :=
    (shows_of_length_lt (w'.client i) hw'.flat hlt).ends
  rw [← hw'.startPrinting_eq] at hend
  refine ⟨t, fs, hend.settlesIn, hret, hnodup, fun f ↦ ?_⟩
  have hview : (∃ x, w'.server.view q f = some x) ↔ ∃ c, w'.contents q f = some c := by
    simp [Household.contents, contentsOf]
  rw [hmem, hview, hcontents]
  simp only [KeyedStore.after_eq_some_iff, exists_or, exists_and_left]

end Results

/-! ## Two devices

Two devices and a server, for which all conditions hold. -/

/-- Two devices of a user: one has a file `f`, the other one and the server have none. -/
def twoDesks : Household Bool where
  client
    | true => ⟨.ofFiles Nat.cast ['c'] [(['f'], ⟨.threeBytes, 5⟩)] countPackets, false⟩
    | false => ⟨.ofFiles Nat.cast ['d'] [] countPackets, false⟩
  socket _ := none
  inbox _ := some []
  server := blank ['s']

theorem twoDesks_sound : twoDesks.Sound [['s']] where
  tidy i := ⟨.inl rfl, rfl, by cases i <;> rfl⟩
  flat := mirrors_blank.flat
  counted f x hx := by
    have hnone : twoDesks.server.view [['s']] f = none := replica_ofFiles_nil Nat.cast ['s'] f
    rw [hnone] at hx
    cases hx
  reported i := by cases i <;> rfl
  counts := rfl

theorem plain_f : Plain ['f'] := ⟨by decide, by decide, by decide, by decide⟩

theorem twoDesks_proper : twoDesks.Proper true (.command (.upload ['f'])) := by
  refine ⟨plain_f, fun x hx ↦ .inr ?_⟩
  obtain rfl : ⟨.threeBytes, 5⟩ = x := Option.some_inj.mp hx
  exact wellCounted_of_lt rfl (by decide) (by decide)

/-- A run: the first device uploads its file. -/
theorem twoDesks_run : ∃ w, Household.Run [['s']] twoDesks [.put ['f'] .threeBytes] w ∧
    w.client false = twoDesks.client false := by
  have hfound : twoDesks.found true ['f'] = some ⟨.threeBytes, 5⟩ := rfl
  have hend := twoDesks_sound.upload_endsIn hfound rfl (twoDesks_proper.2 _ hfound)
  rw [if_neg (wellCounted_of_lt rfl (by decide) (by decide)).pos] at hend
  exact ⟨_, .snoc (.nil _) (.deed twoDesks_proper hend.1 ⟨rfl, rfl⟩), rfl⟩

/-- After the upload of the first device the server holds the file. -/
theorem twoDesks_keep : ∃ w acts, Household.Run [['s']] twoDesks acts w ∧ w.Sound [['s']] ∧
    w.contents [['s']] ['f'] = some .threeBytes := by
  obtain ⟨w, hrun, -⟩ := twoDesks_run
  obtain ⟨hw, hcontents⟩ := household_keeps_store twoDesks_sound hrun
  refine ⟨w, _, hrun, hw, ?_⟩
  rw [hcontents]
  exact KeyedStore.after_eq_some_iff.mpr (.inl ⟨rfl, [], [], rfl, by simp⟩)

/-- After the upload of the first device the other one can download the file. -/
theorem twoDesks_complete : ∃ w acts, Household.Run [['s']] twoDesks acts w ∧
    (w.start false (.command (.download ['f'] []))).Completes peers := by
  obtain ⟨w, hrun, hclient⟩ := twoDesks_run
  refine ⟨w, _, hrun, household_completes twoDesks_sound hrun plain_f ?_⟩
  rw [Household.Ready, hclient]
  exact ⟨_, rfl⟩

/-- A download by the other device leaves it with the file. -/
theorem twoDesks_download : ∃ (w : Household Bool) (t : PeerPair Bool Bool),
    (w.start false (.command (.download ['f'] []))).SettlesIn peers t ∧ t.Returned true true ∧
      Holds t.left.host.files [['d'], ['f']] .threeBytes := by
  obtain ⟨w, hrun, hclient⟩ := twoDesks_run
  have hinfo : ∃ info, (w.client false).files.getFileInfo ['f'] = .ok info := by
    rw [hclient]
    exact ⟨_, rfl⟩
  obtain ⟨info, hinfo⟩ := hinfo
  obtain ⟨t, b, hend, hret, -, hput, -⟩ :=
    download_yields_last twoDesks_sound hrun ['f'] [] plain_f hinfo
  obtain ⟨rfl, hholds⟩ := hput .threeBytes (.inl ⟨rfl, [], [], rfl, by simp⟩)
  exact ⟨w, t, hend, hret, hholds _ (by rw [hclient]; rfl) (by rw [hclient]; rfl)⟩

/-- A listing shows the file that was uploaded. -/
theorem twoDesks_ls : ∃ (w : Household Bool) (t : PeerPair (Bool × List Line) Bool)
    (fs : List Name), (w.startPrinting false).SettlesIn peers t ∧ ['f'] ∈ fs := by
  obtain ⟨w, hrun, -⟩ := twoDesks_run
  obtain ⟨hw, hcontents⟩ := twoDesks_sound.run hrun
  have hsub : FlatDir.names w.server.machine [['s']] ⊆ [['f']] := by
    intro f hf
    obtain ⟨x, hx⟩ := hw.flat.mem_names.mp hf
    have hat : w.contents [['s']] f = some x.contents := congrArg (Option.map File.contents) hx
    by_contra hne
    rw [hcontents, KeyedStore.Untouched.after fun a ha ↦ ?_] at hat
    · have hnone : twoDesks.contents [['s']] f = none :=
        congrArg (Option.map File.contents) (replica_ofFiles_nil Nat.cast ['s'] f)
      rw [hnone] at hat
      cases hat
    · obtain rfl := List.mem_singleton.mp ha
      exact fun hkey ↦ hne (by simp [← hkey])
  have hlt : (FlatDir.names w.server.machine [['s']]).length < 2 ^ 32 :=
    lt_of_le_of_lt (List.subperm_of_subset hw.flat.names_nodup hsub).length_le (by decide)
  obtain ⟨t, fs, hend, -, -, hmem⟩ := ls_lists_history (i := false) twoDesks_sound hrun hlt
  exact ⟨w, t, fs, hend, (hmem _).mpr (.inl ⟨.threeBytes, rfl, [], [], rfl, by simp⟩)⟩

end Bropdox
