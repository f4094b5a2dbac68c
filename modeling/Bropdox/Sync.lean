import Bropdox.FlatHost
import Bropdox.Transfer

/-!
# A synchronisation

`Client::sync_client` against `RequestHandler::sync_server`, for any list of events and any two flat
sync directories.  The two programs run in lock step: between two events, and between two offered
files, both channels are empty and the server is at the head of the loop it shares with the client.

What one event does is `Replica.takeEvent`, which is `none` where the session cannot complete, and
what one offered file does is `Replica.pullFile`, if it is `Obtainable` at all.

## What is here

* `Watched` and `Uploadable` are the side conditions: the events are those of a watcher of the
  directory, and a creation or modification that the server will accept is of a file that still
  exists and whose packets are counted right.
* `sendEvent_endsIn` and `sendEvent_stuck` are the two cases for one event, `sendEvents_endsIn` and
  `sendEvents_stuck` for all of them.
* `offerFile_endsIn` and `offerFile_stuck`, `offerFiles_endsIn` and `offerFiles_stuck` are the same
  for the files the server offers.
* `sync_endsIn` and `sync_completes_iff` put the two halves together, and `sync_returned` says what
  a session that completes leaves behind.
* `sync_correct_iff`: where the counts of the client's files are right, the session completes under
  every schedule, with the right files on both sides and nothing misread, if and only if no file
  that the events leave on the server is listed with no packets.
* `edit_synced` and `empty_file_stops_sync` are the two sides of this on small hosts.

Where every count is right nothing is stuck in the first half, and `takeEvents` is the plain fold of
the events.  What is left to go wrong is the second half: a file that is *listed* with no packets
looks like the end of the list, and the server waits for ever.
-/

set_option autoImplicit false

namespace Bropdox

open FileSystem Session Program SocketHandler Peers

/-! ## The side conditions

What the events, the uploads and the downloads of a session have to be like for it to end. -/

/-- The path of an event lies directly in the sync directory of the client, and its kind is one of
those the watcher registers. -/
structure Watched (h : FileHost) (p : Path) (event : FileEvent) : Prop where
  /-- The kind. -/
  kind : event.event = .create ∨ event.event = .modify ∨ event.event = .remove
  /-- The path is an absolute one. -/
  absolute : isAbsolute event.file.name = true
  /-- The last component of the path can be the name of a file. -/
  plain : Plain event.fileName
  /-- The path leads into the directory. -/
  resolves : h.machine.resolve event.file.name = some (p ++ [event.fileName])

/-- Every creation or modification that the server will accept is of a file that still exists, and
whose packet count is right. -/
def Uploadable (h : FileHost) (client : Store) : Replica → List FileEvent → Prop
  | _, [] => True
  | r, event :: events =>
    (r.Accepts event → ∃ x, client event.fileName = some x ∧ WellCounted h x.contents) ∧
      Uploadable h client (r.applyEvent client event) events

theorem Watched.soughtName {h : FileHost} {p : Path} {event : FileEvent} (hw : Watched h p event) :
    soughtName event.file.name = event.fileName := by
  rw [Bropdox.soughtName, if_pos hw.absolute, FileEvent.fileName]

theorem Watched.readPath {h : FileHost} {p : Path} {event : FileEvent} (hw : Watched h p event) :
    h.machine.resolve (h.readPath event.file.name) = some (p ++ [event.fileName]) := by
  rw [FileHost.readPath, if_pos hw.absolute, hw.resolves]

/-! ## The first loop

The client sends its events, each followed by an upload if the server wants one.  A wrong packet
count is fatal: packets that were not announced are read as the next event, and packets that were
announced and do not exist are waited for. -/

/-- What an event does to the server's replica, `client` being the files of the client `h`.  A file
that is announced with no packets is refused; nothing completes after one that is announced with a
wrong count, or that does not exist. -/
def Replica.takeEvent (h : FileHost) (client : Store) (r : Replica) (event : FileEvent) :
    Option Replica :=
  if r.Accepts event then
    match client event.fileName with
    | some x =>
      if h.announced x.contents = 0 then some r
      else if WellCounted h x.contents then some (r.save event.fileName x.contents)
      else none
    | none => none
  else some (r.applyEvent client event)

/-- All that one event can do: nothing, save a file that was accepted, or remove one. -/
theorem Replica.takeEvent_cases {h : FileHost} {client : Store} {r r' : Replica} {event : FileEvent}
    (htake : r.takeEvent h client event = some r') :
    r' = r ∨
      (∃ x, r.Accepts event ∧ client event.fileName = some x ∧
        r' = r.save event.fileName x.contents) ∨
      (event.event = .remove ∧ r' = r.remove event.fileName) := by
  rw [takeEvent] at htake
  by_cases hacc : r.Accepts event
  · rw [if_pos hacc] at htake
    cases hx : client event.fileName with
    | none => simp [hx] at htake
    | some x =>
      simp only [hx] at htake
      by_cases hzero : h.announced x.contents = 0
      · rw [if_pos hzero, Option.some_inj] at htake
        exact .inl htake.symm
      by_cases hcount : WellCounted h x.contents
      · rw [if_neg hzero, if_pos hcount, Option.some_inj] at htake
        exact .inr (.inl ⟨x, hacc, rfl, htake.symm⟩)
      · simp [hzero, hcount] at htake
  · rw [if_neg hacc, Option.some_inj] at htake
    exact htake ▸ applyEvent_cases client r event

/-- What a list of events does to the server's replica. -/
def Replica.takeEvents (h : FileHost) (client : Store) : Replica → List FileEvent → Option Replica
  | r, [] => some r
  | r, event :: events =>
    (r.takeEvent h client event).bind fun r' ↦ r'.takeEvents h client events

/-- Where every count is right, it is the plain fold. -/
theorem Replica.takeEvents_of_uploadable {h : FileHost} {client : Store} {r : Replica}
    {events : List FileEvent} (hup : Uploadable h client r events) :
    r.takeEvents h client events = some (r.applyEvents client events) := by
  induction events generalizing r with
  | nil => rfl
  | cons event events ih =>
    have hone : r.takeEvent h client event = some (r.applyEvent client event) := by
      rw [takeEvent]
      split
      · rename_i hacc
        obtain ⟨x, hx, hcount⟩ := hup.1 hacc
        rw [applyEvent_accepted hacc hx, hx]
        simp only [if_neg hcount.pos, if_pos hcount]
      · rfl
    rw [takeEvents, hone, Option.bind_some, ih hup.2]
    rfl

section Events

variable {α β : Type} {h : Client.Host} {h' : FileHost} {m m' : List (Parcel sessionWire)}
  {p q : Path} {c r : Replica} {event : FileEvent}
  {k : Unit → Client.Prog α} {k' : Unit → RequestHandler.Prog β}

/-- A file whose packet count is right is stored whole. -/
theorem uploadWhole_endsIn (hsync : h.syncing = true) (hc : h.files.Mirrors p c)
    (hw : Watched h.files p event) {x : File}
    (hx : c.store event.fileName = some x) (hcount : WellCounted h.files x.contents)
    {j : Bool → Client.Prog α} {j' : Bool → RequestHandler.Prog β} (t : PeerPair α β) :
    Pair.EndsIn peers ⟨⟨h, (Client.sendFile event.file.name).bind j⟩, ⟨h', expectUpload j'⟩,
        some [], some [], m, m'⟩ t ↔
      Pair.EndsIn peers ⟨⟨h, j true⟩,
        ⟨h'.store event.fileName [] (packetsOf x.contents), j' true⟩,
        some [], some [], m, m'⟩ t := by
  have hread := FileHost.readFile_eq hc.flat hw.readPath (hc.view_eq ▸ hx)
  have hinfo := FileHost.getFileInfo_eq hc.flat hw.soughtName hw.plain
  rw [upload_stored hread hinfo hcount.pos hcount.eq_length le_rfl, left_keepUnlessSyncing]
  simp [keptAfter, socketAfter, hsync, infoOf]

/-- What the client does for a creation or a modification. -/
theorem sendEvent_write (he : event.event = .create ∨ event.event = .modify) :
    Client.sendEvent event = (sendPacket .fileEvent event).bind fun _ ↦ Client.waitAck.bind
      fun wanted ↦ if !wanted then .ret ()
        else discard (Client.callSendFile event.file.name) := by
  rw [Client.sendEvent]
  rcases he with he | he <;> simp only [he] <;> rfl

/-- What the server does for a creation or a modification. -/
theorem receiveEvent_write (he : event.event = .create ∨ event.event = .modify) :
    RequestHandler.receiveEvent event =
      (RequestHandler.file (.checkFreshness event.file)).bind fun fresh ↦
        (sendPacket .ack ⟨fresh⟩).bind fun _ ↦ if !fresh then .ret ()
          else expectUpload fun _ ↦ .ret () := by
  rw [RequestHandler.receiveEvent]
  rcases he with he | he <;> simp only [he] <;> rfl

/-- The server is at the head of its loop, and an event arrives that does not end it. -/
theorem receiveEvents_endsIn (he : event.event ≠ .close) {l : Endpoint sessionWire Client.sig α}
    {i : Inbox sessionWire} {ps : List (Parcel sessionWire)} (t : PeerPair α β) :
    Pair.EndsIn peers ⟨l, ⟨h', RequestHandler.callReceiveEvents.bind k'⟩, i,
        some (parcel .fileEvent event :: ps), m, m'⟩ t ↔
      Pair.EndsIn peers ⟨l, ⟨h', (RequestHandler.receiveEvent event).bind fun _ ↦
        RequestHandler.callReceiveEvents.bind k'⟩, i, some ps, m, m'⟩ t := by
  rw [right_callReceiveEvents]
  simp [RequestHandler.receiveEvents, RequestHandler.waitFor, he]

/-- What the server answers to a creation or a modification. -/
theorem Watched.checkFreshness {host : FileHost} (hw : Watched host p event) (hr : h'.Mirrors q r)
    (he : event.event = .create ∨ event.event = .modify) :
    h'.checkFreshness event.file = .ok (decide (r.Accepts event)) := by
  rw [FileHost.checkFreshness_eq hr.flat hw.soughtName hw.plain, hr.view_eq]
  simp [Replica.Accepts, he]

/-- An event that the server does not accept leaves both sides as they were. -/
theorem staleEvent_endsIn (hr : h'.Mirrors q r)
    (hw : Watched h.files p event) (he : event.event = .create ∨ event.event = .modify)
    (hstale : ¬ r.Accepts event) (t : PeerPair α β) :
    Pair.EndsIn peers ⟨⟨h, (Client.sendEvent event).bind k⟩,
        ⟨h', RequestHandler.callReceiveEvents.bind k'⟩,
        some [], some [], m, m'⟩ t ↔
      Pair.EndsIn peers ⟨⟨h, k ()⟩, ⟨h', RequestHandler.callReceiveEvents.bind k'⟩,
        some [], some [], m, m'⟩ t := by
  have hfresh := hw.checkFreshness hr he
  rw [decide_eq_false hstale] at hfresh
  rw [sendEvent_write he]
  simp only [bind_assoc, left_send, deliver_some, List.nil_append]
  rw [receiveEvents_endsIn (Replica.ne_close_of_write he), receiveEvent_write he]
  simp only [bind_assoc]
  rw [right_file (FileOp.exec_checkFreshness hfresh)]
  simp [Client.waitAck]

/-- An accepted event is followed by an upload. -/
theorem acceptedEvent_endsIn (hr : h'.Mirrors q r) (hw : Watched h.files p event)
    (hacc : r.Accepts event) (t : PeerPair α β) :
    Pair.EndsIn peers ⟨⟨h, (Client.sendEvent event).bind k⟩,
        ⟨h', RequestHandler.callReceiveEvents.bind k'⟩, some [], some [], m, m'⟩ t ↔
      Pair.EndsIn peers ⟨⟨h, (Client.sendFile event.file.name).bind fun _ ↦ k ()⟩,
        ⟨h', expectUpload fun _ ↦ RequestHandler.callReceiveEvents.bind k'⟩,
        some [], some [], m, m'⟩ t := by
  have hfresh := hw.checkFreshness hr hacc.1
  rw [decide_eq_true hacc] at hfresh
  rw [sendEvent_write hacc.1]
  simp only [bind_assoc, left_send, deliver_some, List.nil_append]
  rw [receiveEvents_endsIn (Replica.ne_close_of_write hacc.1), receiveEvent_write hacc.1]
  simp only [bind_assoc]
  rw [right_file (FileOp.exec_checkFreshness hfresh)]
  simp only [bind_assoc, right_send, deliver_some, List.nil_append, Client.waitAck, bind_eq,
    left_wait, expect_some, pure_eq, ret_bind, Bool.not_true, Bool.false_eq_true, if_false,
    discard_eq, expectUpload_bind]
  rw [left_callSendFile]

/-- **No session survives an upload with a wrong count.**  The packets that were not announced are
still there when the server waits for the next event; or it waits for packets that do not come. -/
theorem badUpload_stuck (hc : h.files.Mirrors p c) (hw : Watched h.files p event) {x : File}
    (hx : c.store event.fileName = some x) (hpos : h.files.announced x.contents ≠ 0)
    (hcount : ¬ WellCounted h.files x.contents) {j : Bool → Client.Prog α} :
    ¬ Pair.Completes (α := α) (β := β) peers
      ⟨⟨h, (Client.sendFile event.file.name).bind j⟩,
        ⟨h', expectUpload fun _ ↦ RequestHandler.callReceiveEvents.bind k'⟩,
        some [], some [], m, m'⟩ := by
  have hread := FileHost.readFile_eq hc.flat hw.readPath (hc.view_eq ▸ hx)
  have hinfo := FileHost.getFileInfo_eq hc.flat hw.soughtName hw.plain
  rcases Nat.lt_trichotomy (h.files.announced x.contents).toNat (packetsOf x.contents).length
    with hlt | heq | hgt
  · rw [Pair.completes_congr fun t ↦
      (upload_stored hread hinfo hpos rfl hlt.le).trans right_callReceiveEvents]
    -- the next packet is about to be read as an event
    obtain ⟨packet, rest, hdrop⟩ : ∃ packet rest, (packetsOf x.contents).drop
        (h.files.announced x.contents).toNat = packet :: rest :=
      List.exists_cons_of_ne_nil fun hnil ↦ by
        rw [List.drop_eq_nil_iff] at hnil
        omega
    refine Pair.not_completes_of_confused (.inr ⟨.fileEvent, _, (), ⟨.packet, packet⟩,
      rest.map (parcel .packet), rfl, ?_, by simp⟩)
    show some (((packetsOf x.contents).drop (h.files.announced x.contents).toNat).map _) = _
    rw [hdrop]
    rfl
  · exact absurd ⟨hpos, heq⟩ hcount
  · obtain ⟨t, ht, hleft, -⟩ := upload_starved hread hinfo hgt
    exact Pair.not_completes_of_endsIn ht fun a b hret ↦ hleft a hret.1

/-- A removal, whatever the two hosts are: the server deletes what the client calls the file. -/
theorem sendRemoval_endsIn (hsync : h.syncing = true) (he : event.event = .remove)
    {info : FileInfo} (hinfo : h.files.getFileInfo event.file.name = .ok info) {b : Bool}
    {s : FileHost} (hdel : h'.deleteFile info.name = .ok (b, s)) (t : PeerPair α β) :
    Pair.EndsIn peers ⟨⟨h, (Client.sendEvent event).bind k⟩,
        ⟨h', RequestHandler.callReceiveEvents.bind k'⟩, some [], some [], m, m'⟩ t ↔
      Pair.EndsIn peers ⟨⟨h, k ()⟩, ⟨s, RequestHandler.callReceiveEvents.bind k'⟩,
        some [], some [], m, m'⟩ t := by
  have hclose : event.event ≠ .close := by rw [he]; decide
  simp only [Client.sendEvent, he, bind_eq, bind_assoc, left_send, deliver_some, List.nil_append]
  rw [receiveEvents_endsIn hclose]
  simp only [RequestHandler.receiveEvent, he, bind_eq, bind_assoc, right_send, deliver_some,
    List.nil_append, Client.waitAck, left_wait, expect_some, pure_eq, ret_bind, Bool.not_true,
    Bool.false_eq_true, if_false, discard_eq, Client.deleteFile]
  rw [left_query (FileOp.exec_getFileInfo hinfo)]
  simp only [left_send, deliver_some, List.nil_append, left_isSyncing, hsync, Bool.not_true,
    Bool.false_eq_true, if_false, ret_bind, RequestHandler.waitFor, bind_eq, bind_assoc, right_wait,
    expect_some, RequestHandler.deleteFile]
  rw [right_file (o := .deleteFile _) hdel]
  cases b <;> simp [hsync, socketAfter]

/-- The removal of a file. -/
theorem removeEvent_endsIn (hsync : h.syncing = true) (hc : h.files.Mirrors p c)
    (hr : h'.Mirrors q r) (hw : Watched h.files p event) (he : event.event = .remove) :
    ∃ s, s.Mirrors q (r.remove event.fileName) ∧ h'.SameSettings s ∧ ∀ k k' m m' t,
      Pair.EndsIn (α := α) (β := β) peers ⟨⟨h, (Client.sendEvent event).bind k⟩,
          ⟨h', RequestHandler.callReceiveEvents.bind k'⟩,
          some [], some [], m, m'⟩ t ↔
        Pair.EndsIn peers ⟨⟨h, k ()⟩,
          ⟨s, RequestHandler.callReceiveEvents.bind k'⟩,
          some [], some [], m, m'⟩ t := by
  obtain ⟨s, hdel, hs, hset⟩ := hr.delete hw.plain
  exact ⟨s, hs, hset, fun k k' m m' t ↦ sendRemoval_endsIn hsync he
    (FileHost.getFileInfo_eq hc.flat hw.soughtName hw.plain) hdel t⟩

/-- **One event** that does not stop the session: the server's replica is updated, and both sides
are ready for the next. -/
theorem sendEvent_endsIn (hsync : h.syncing = true) (hc : h.files.Mirrors p c)
    (hr : h'.Mirrors q r) (hw : Watched h.files p event) {r' : Replica}
    (htake : r.takeEvent h.files c.store event = some r') :
    ∃ s, s.Mirrors q r' ∧ h'.SameSettings s ∧ ∀ k k' m m' t,
      Pair.EndsIn (α := α) (β := β) peers ⟨⟨h, (Client.sendEvent event).bind k⟩,
          ⟨h', RequestHandler.callReceiveEvents.bind k'⟩, some [], some [], m, m'⟩ t ↔
        Pair.EndsIn peers ⟨⟨h, k ()⟩, ⟨s, RequestHandler.callReceiveEvents.bind k'⟩,
          some [], some [], m, m'⟩ t := by
  rw [Replica.takeEvent] at htake
  by_cases hacc : r.Accepts event
  · rw [if_pos hacc] at htake
    cases hx : c.store event.fileName with
    | none => simp [hx] at htake
    | some x =>
      simp only [hx] at htake
      by_cases hzero : h.files.announced x.contents = 0
      · -- the upload is refused
        obtain rfl : r = r' := by simpa [hzero] using htake
        have hread := FileHost.readFile_eq hc.flat hw.readPath (hc.view_eq ▸ hx)
        have hinfo := FileHost.getFileInfo_eq hc.flat hw.soughtName hw.plain
        exact ⟨h', hr, .refl h', fun _ _ _ _ t ↦ (acceptedEvent_endsIn hr hw hacc t).trans
          (upload_refused hread hinfo hzero)⟩
      by_cases hcount : WellCounted h.files x.contents
      · obtain rfl : r.save event.fileName x.contents = r' := by
          simpa [hzero, hcount] using htake
        exact ⟨_, hr.store (soughtName_plain hw.plain) hw.plain x.contents,
          FileHost.sameSettings_store .., fun _ _ _ _ t ↦
            (acceptedEvent_endsIn hr hw hacc t).trans (uploadWhole_endsIn hsync hc hw hx hcount t)⟩
      · simp [hzero, hcount] at htake
  rw [if_neg hacc, Option.some_inj] at htake
  subst htake
  by_cases he : event.event = .remove
  · rw [Replica.applyEvent_remove _ _ he]
    exact removeEvent_endsIn hsync hc hr hw he
  · have hwrite : event.event = .create ∨ event.event = .modify := by
      rcases hw.kind with he' | he' | he'
      · exact .inl he'
      · exact .inr he'
      · exact absurd he' he
    rw [Replica.applyEvent_stale _ hacc he]
    exact ⟨h', hr, .refl h', fun _ _ _ _ t ↦ staleEvent_endsIn hr hw hwrite hacc t⟩

/-- **One event** that stops the session. -/
theorem sendEvent_stuck (hc : h.files.Mirrors p c) (hr : h'.Mirrors q r)
    (hw : Watched h.files p event) (htake : r.takeEvent h.files c.store event = none) :
    ¬ Pair.Completes (α := α) (β := β) peers ⟨⟨h, (Client.sendEvent event).bind k⟩,
      ⟨h', RequestHandler.callReceiveEvents.bind k'⟩, some [], some [], m, m'⟩ := by
  rw [Replica.takeEvent] at htake
  by_cases hacc : r.Accepts event
  · rw [if_pos hacc] at htake
    rw [Pair.completes_congr (acceptedEvent_endsIn hr hw hacc)]
    cases hx : c.store event.fileName with
    | none =>
      -- the exception of `read_file` escapes on the client
      have hread := FileHost.readFile_none hc.flat hw.readPath (hc.view_eq ▸ hx)
      have hthrow : ∀ t : PeerPair α β,
          Pair.EndsIn peers ⟨⟨h, (Client.sendFile event.file.name).bind fun _ ↦ k ()⟩,
            ⟨h', expectUpload fun _ ↦ RequestHandler.callReceiveEvents.bind k'⟩,
            some [], some [], m, m'⟩ t ↔
          Pair.EndsIn peers ⟨⟨h, .throw .fileDoesNotExist⟩,
            ⟨h', expectUpload fun _ ↦ RequestHandler.callReceiveEvents.bind k'⟩,
            some [], some [], m, m'⟩ t := by
        intro t
        simp only [Client.sendFile, bind_eq, bind_assoc]
        rw [left_file_error (FileOp.exec_readFile_error hread)]
      rw [Pair.completes_congr hthrow]
      refine Pair.not_completes_of_endsIn
        ⟨.refl, Pair.terminal_of_stuck (Endpoint.step_throw ..) rfl⟩ fun a b hret ↦ ?_
      cases hret.1
    | some x =>
      simp only [hx] at htake
      by_cases hzero : h.files.announced x.contents = 0
      · simp [hzero] at htake
      by_cases hcount : WellCounted h.files x.contents
      · simp [hzero, hcount] at htake
      · exact badUpload_stuck hc hw hx hzero hcount
  · simp [hacc] at htake

/-- **All events**, if none stops the session. -/
theorem sendEvents_endsIn (hsync : h.syncing = true) (hc : h.files.Mirrors p c)
    (events : List FileEvent) (hr : h'.Mirrors q r)
    (hw : ∀ event ∈ events, Watched h.files p event) {r' : Replica}
    (htake : r.takeEvents h.files c.store events = some r') :
    ∃ s, s.Mirrors q r' ∧ h'.SameSettings s ∧ ∀ k k' m m' t,
      Pair.EndsIn (α := α) (β := β) peers ⟨⟨h, (Client.sendEvents events).bind k⟩,
          ⟨h', RequestHandler.callReceiveEvents.bind k'⟩, some [], some [], m, m'⟩ t ↔
        Pair.EndsIn peers ⟨⟨h, k ()⟩, ⟨s, RequestHandler.callReceiveEvents.bind k'⟩,
          some [], some [], m, m'⟩ t := by
  induction events generalizing r h' with
  | nil =>
    cases htake
    exact ⟨h', hr, .refl h', fun _ _ _ _ _ ↦ by rw [Client.sendEvents, pure_eq, ret_bind]⟩
  | cons event events ih =>
    obtain ⟨r₁, hone, hrest⟩ := Option.bind_eq_some_iff.mp htake
    obtain ⟨s, hs, hset, hone⟩ :=
      sendEvent_endsIn (α := α) (β := β) hsync hc hr (hw event List.mem_cons_self) hone
    obtain ⟨s', hs', hset', hall⟩ := ih hs (fun e he ↦ hw e (List.mem_cons_of_mem _ he)) hrest
    refine ⟨s', hs', hset.trans hset', fun k k' m m' t ↦ ?_⟩
    rw [Client.sendEvents, bind_eq, bind_assoc]
    exact (hone ..).trans (hall ..)

/-- **All events**, if one of them stops the session. -/
theorem sendEvents_stuck (hsync : h.syncing = true) (hc : h.files.Mirrors p c)
    (events : List FileEvent) (hr : h'.Mirrors q r)
    (hw : ∀ event ∈ events, Watched h.files p event)
    (htake : r.takeEvents h.files c.store events = none) :
    ¬ Pair.Completes (α := α) (β := β) peers ⟨⟨h, (Client.sendEvents events).bind k⟩,
      ⟨h', RequestHandler.callReceiveEvents.bind k'⟩, some [], some [], m, m'⟩ := by
  induction events generalizing r h' with
  | nil => cases htake
  | cons event events ih =>
    simp only [Client.sendEvents, bind_eq, bind_assoc]
    cases hone : r.takeEvent h.files c.store event with
    | none => exact sendEvent_stuck hc hr (hw event List.mem_cons_self) hone
    | some r₁ =>
      obtain ⟨s, hs, -, hstep⟩ :=
        sendEvent_endsIn (α := α) (β := β) hsync hc hr (hw event List.mem_cons_self) hone
      rw [Pair.completes_congr fun t ↦ hstep _ _ _ _ t]
      refine ih hs (fun e he ↦ hw e (List.mem_cons_of_mem _ he)) ?_
      rwa [Replica.takeEvents, hone, Option.bind_some] at htake

end Events

/-! ## The second loop

The server offers its files, and the client asks for those that are later than its own.  The end of
the loop is an offer with no packets, so that a file listed with none ends it early. -/

/-- The client can get the file `f` from the server `h'`, should the server offer it: the file is
not listed with no packets, and if the client asks for it `read_file` counts its packets right. -/
def Obtainable (h' : FileHost) (server client : Store) (f : Name) : Prop :=
  ∀ x, server f = some x → listedCount x.size ≠ 0 ∧
    (x.modifiedTime > client.modifiedTime f → WellCounted h' x.contents)

/-- The client has taken over another file. -/
theorem obtainable_pullFile {h' : FileHost} {server : Store} {c : Replica} {f g : Name}
    (hne : g ≠ f) :
    Obtainable h' server (c.pullFile server f).store g ↔ Obtainable h' server c.store g := by
  rw [Obtainable, Store.modifiedTime, Replica.pullFile_of_ne _ _ hne]
  rfl

/-- What is left of `sync_client` after its second loop. -/
def Client.concludeSync : Client.Prog Bool := do
  sendPacket .ack ⟨true⟩
  setSyncing false
  return true

section Offers

variable {α β : Type} {h : Client.Host} {h' : FileHost} {m m' : List (Parcel sessionWire)}
  {p q : Path} {c r : Replica} {f : Name} {x : File} {entries : List FileData} {names : List Name}
  {k : Unit → Client.Prog α} {k' : Unit → RequestHandler.Prog β}

/-- A file is offered, and the client says whether it wants it. -/
theorem offer_endsIn (hc : h.files.Mirrors p c) (hf : Plain f)
    (hlisted : listedCount (r.store.size f) ≠ 0) {fresh : Bool}
    (hfresh : fresh = decide (r.store.modifiedTime f > c.store.modifiedTime f))
    (t : PeerPair α β) :
    Pair.EndsIn peers ⟨⟨h, Client.callReceiveFiles.bind k⟩,
        ⟨h', (RequestHandler.offerFiles (FileHost.entryOf r.store f :: entries)).bind k'⟩,
        some [], some [], m, m'⟩ t ↔
      Pair.EndsIn peers
        ⟨⟨h, (if fresh then discard (Client.getFile f []) else pure ()).bind fun _ ↦
          Client.callReceiveFiles.bind k⟩,
        ⟨h', (if !fresh then pure () else (waitPacket .fileData).bind fun _ ↦
          RequestHandler.callSendFile f).bind fun _ ↦
          (RequestHandler.offerFiles entries).bind k'⟩, some [], some [], m, m'⟩ t := by
  have hcheck : h.files.checkFreshness (infoOf r.store f) = .ok fresh := by
    rw [FileHost.checkFreshness_eq hc.flat (soughtName_plain hf) hf, hc.view_eq, hfresh]
    rfl
  rw [left_callReceiveFiles]
  simp only [Client.receiveFiles, RequestHandler.offerFiles, FileHost.entryOf, bind_eq,
    bind_assoc, right_send, deliver_some, List.nil_append, left_wait, hlisted, ne_eq,
    not_false_eq_true, if_true]
  rw [left_query (FileOp.exec_checkFreshness hcheck)]
  cases fresh <;> simp

/-- The client asks for a file it was offered. -/
theorem fetch_endsIn (hc : h.files.Mirrors p c) (hf : Plain f) (t : PeerPair α β) :
    Pair.EndsIn peers ⟨⟨h, (discard (Client.getFile f [])).bind k⟩,
        ⟨h', ((waitPacket .fileData).bind fun _ ↦
          RequestHandler.callSendFile f).bind k'⟩, some [], some [], m, m'⟩ t ↔
      Pair.EndsIn peers ⟨⟨h, (Client.receiveRequested f []).bind fun _ ↦ k ()⟩,
        ⟨h', (RequestHandler.sendFile f).bind k'⟩, some [], some [], m, m'⟩ t := by
  have hask := FileHost.getFileInfo_eq hc.flat (soughtName_plain hf) hf
  simp only [Client.getFile, discard_eq, bind_eq, bind_assoc, ret_bind]
  rw [left_query (FileOp.exec_getFileInfo hask)]
  simp only [left_send, deliver_some, List.nil_append, right_wait]
  rw [right_callSendFile]

/-- A file whose packet count is right is fetched whole. -/
theorem fetchWhole_endsIn (hsync : h.syncing = true) (hc : h.files.Mirrors p c)
    (hr : h'.Mirrors q r) (hx : r.store f = some x) (hcount : WellCounted h' x.contents)
    (t : PeerPair α β) :
    Pair.EndsIn peers ⟨⟨h, (discard (Client.getFile f [])).bind k⟩,
        ⟨h', ((waitPacket .fileData).bind fun _ ↦
          RequestHandler.callSendFile f).bind k'⟩, some [], some [], m, m'⟩ t ↔
      Pair.EndsIn peers
        ⟨⟨{ h with files := h.files.store f [] (packetsOf x.contents) }, k ()⟩, ⟨h', k' ()⟩,
        some [], some [], m, m'⟩ t := by
  have hf : Plain f := hr.flat.plain (hr.view_eq ▸ hx)
  have hread := FileHost.readFile_eq hr.flat (FileHost.readPath_plain hr.flat hf) (hr.view_eq ▸ hx)
  have hinfo := FileHost.getFileInfo_eq hr.flat (soughtName_plain hf) hf
  rw [fetch_endsIn hc hf, download_stored hread hinfo hcount.pos hcount.eq_length le_rfl,
    left_resetUnlessSyncing]
  simp [socketAfter, hsync]

/-- The client does not get past a packet it takes for an offer. -/
theorem leftover_stuck {packets : List Packet} (hne : packets ≠ [])
    {e : Endpoint sessionWire RequestHandler.sig β} {j : Inbox sessionWire} :
    ¬ Pair.Completes peers ⟨⟨h, Client.callReceiveFiles.bind k⟩, e,
      some (packets.map (parcel .packet)), j, m, m'⟩ := by
  obtain ⟨packet, rest, rfl⟩ := List.exists_cons_of_ne_nil hne
  rw [Pair.completes_congr fun _ ↦ left_callReceiveFiles]
  exact Pair.not_completes_of_confused
    (.inl ⟨.fileData, _, (), ⟨.packet, packet⟩, rest.map (parcel .packet), rfl, rfl, by simp⟩)

/-- **No session survives a download with a wrong count.** -/
theorem badFetch_stuck (hsync : h.syncing = true) (hc : h.files.Mirrors p c)
    (hr : h'.Mirrors q r) (hx : r.store f = some x) (hcount : ¬ WellCounted h' x.contents) :
    ¬ Pair.Completes peers
      ⟨⟨h, (discard (Client.getFile f [])).bind fun _ ↦ Client.callReceiveFiles.bind k⟩,
        ⟨h', ((waitPacket .fileData).bind fun _ ↦
          RequestHandler.callSendFile f).bind k'⟩, some [], some [], m, m'⟩ := by
  have hf : Plain f := hr.flat.plain (hr.view_eq ▸ hx)
  have hread := FileHost.readFile_eq hr.flat (FileHost.readPath_plain hr.flat hf) (hr.view_eq ▸ hx)
  have hinfo := FileHost.getFileInfo_eq hr.flat (soughtName_plain hf) hf
  rw [Pair.completes_congr (fetch_endsIn hc hf)]
  by_cases hzero : h'.announced x.contents = 0
  · -- the client gives up, and the packets come nevertheless
    rw [Pair.completes_congr fun t ↦
      (download_refused hread hinfo hzero).trans left_resetUnlessSyncing]
    simp only [socketAfter, hsync, if_true]
    exact leftover_stuck (packetsOf_ne_nil _)
  rcases Nat.lt_trichotomy (h'.announced x.contents).toNat (packetsOf x.contents).length
    with hlt | heq | hgt
  · rw [Pair.completes_congr fun t ↦
      (download_stored hread hinfo hzero rfl hlt.le).trans left_resetUnlessSyncing]
    simp only [socketAfter, hsync, if_true]
    refine leftover_stuck fun hnil ↦ ?_
    rw [List.drop_eq_nil_iff] at hnil
    exact absurd hlt (not_lt.mpr hnil)
  · exact absurd ⟨hzero, heq⟩ hcount
  · obtain ⟨t, ht, hleft, -⟩ := download_starved hread hinfo hgt
    exact Pair.not_completes_of_endsIn ht fun a b hret ↦ hleft a hret.1

/-- A file listed with no packets ends the loop of the client; its last acknowledgement is taken for
a wish to have that file, and the server waits for a request that never comes. -/
theorem offerEmpty_stuck (hlisted : listedCount (r.store.size f) = 0)
    {k' : Unit → RequestHandler.Prog β} :
    ¬ Pair.Completes peers ⟨⟨h, Client.callReceiveFiles.bind fun _ ↦ Client.concludeSync⟩,
        ⟨h', (RequestHandler.offerFiles (FileHost.entryOf r.store f :: entries)).bind k'⟩,
        some [], some [], m, m'⟩ := by
  obtain ⟨t, ht, hstuck⟩ : ∃ t : PeerPair Bool β, Pair.EndsIn peers
      ⟨⟨h, Client.callReceiveFiles.bind fun _ ↦ Client.concludeSync⟩,
        ⟨h', (RequestHandler.offerFiles (FileHost.entryOf r.store f :: entries)).bind k'⟩,
        some [], some [], m, m'⟩ t ∧ ∀ b, t.right.prog ≠ .ret b := by
    simp only [left_callReceiveFiles, Client.receiveFiles, RequestHandler.offerFiles,
      FileHost.entryOf, bind_eq, bind_assoc, right_send, deliver_some, List.nil_append, left_wait,
      hlisted, ne_eq, not_true_eq_false, if_false, pure_eq, ret_bind, Client.concludeSync,
      left_send, left_setSyncing, right_wait, Bool.not_true, Bool.false_eq_true]
    refine ⟨_, ⟨.refl, Pair.terminal_of_stuck (Endpoint.step_ret ..) rfl⟩, fun b hb ↦ ?_⟩
    cases hb
  exact Pair.not_completes_of_endsIn ht fun a b hret ↦ hstuck b hret.2

/-- **One offered file** that the client can get: it is taken over if the server's copy is the later
one, and both sides are ready for the next. -/
theorem offerFile_endsIn (entries : List FileData) (hsync : h.syncing = true)
    (hc : h.files.Mirrors p c)
    (hr : h'.Mirrors q r) (hx : r.store f = some x) (hget : Obtainable h' r.store c.store f) :
    ∃ s, s.Mirrors p (c.pullFile r.store f) ∧ h.files.SameSettings s ∧ ∀ k k' m m' t,
      Pair.EndsIn (α := α) (β := β) peers
          ⟨⟨h, Client.callReceiveFiles.bind k⟩,
          ⟨h', (RequestHandler.offerFiles (FileHost.entryOf r.store f :: entries)).bind k'⟩,
          some [], some [], m, m'⟩ t ↔
        Pair.EndsIn peers
          ⟨⟨{ h with files := s }, Client.callReceiveFiles.bind k⟩,
          ⟨h', (RequestHandler.offerFiles entries).bind k'⟩, some [], some [], m, m'⟩ t := by
  have hf : Plain f := hr.flat.plain (hr.view_eq ▸ hx)
  have htime : r.store.modifiedTime f = x.modifiedTime := by rw [Store.modifiedTime, hx]; rfl
  have hsize : r.store.size f = x.size := by rw [Store.size, hx]; rfl
  obtain ⟨hlisted, hcount⟩ := hget x hx
  rw [← hsize] at hlisted
  by_cases hlate : r.store.modifiedTime f > c.store.modifiedTime f
  · refine ⟨h.files.store f [] (packetsOf x.contents), ?_, FileHost.sameSettings_store ..,
      fun k k' m m' t ↦ ?_⟩
    · rw [Replica.pullFile, if_pos hlate, hx]
      exact hc.store (soughtName_plain hf) hf x.contents
    · rw [offer_endsIn hc hf hlisted (decide_eq_true hlate).symm]
      exact fetchWhole_endsIn hsync hc hr hx (hcount (htime ▸ hlate)) t
  · refine ⟨h.files, ?_, .refl _, fun k k' m m' t ↦ ?_⟩
    · rw [Replica.pullFile, if_neg hlate]
      exact hc
    · rw [offer_endsIn hc hf hlisted (decide_eq_false hlate).symm]
      rfl

/-- **One offered file** that the client cannot get. -/
theorem offerFile_stuck (hsync : h.syncing = true) (hc : h.files.Mirrors p c)
    (hr : h'.Mirrors q r) (hx : r.store f = some x) (hget : ¬ Obtainable h' r.store c.store f)
    {k' : Unit → RequestHandler.Prog β} :
    ¬ Pair.Completes peers ⟨⟨h, Client.callReceiveFiles.bind fun _ ↦ Client.concludeSync⟩,
        ⟨h', (RequestHandler.offerFiles (FileHost.entryOf r.store f :: entries)).bind k'⟩,
        some [], some [], m, m'⟩ := by
  have hf : Plain f := hr.flat.plain (hr.view_eq ▸ hx)
  have htime : r.store.modifiedTime f = x.modifiedTime := by rw [Store.modifiedTime, hx]; rfl
  have hsize : r.store.size f = x.size := by rw [Store.size, hx]; rfl
  by_cases hlisted : listedCount (r.store.size f) = 0
  · exact offerEmpty_stuck hlisted
  have hwant : x.modifiedTime > c.store.modifiedTime f ∧ ¬ WellCounted h' x.contents := by
    by_contra hnot
    refine hget fun y hy ↦ ?_
    obtain rfl : x = y := Option.some_inj.mp (hx.symm.trans hy)
    exact ⟨hsize ▸ hlisted, fun hlate ↦ by_contra fun hcount ↦ hnot ⟨hlate, hcount⟩⟩
  rw [Pair.completes_congr
    (offer_endsIn hc hf hlisted (decide_eq_true (htime ▸ hwant.1)).symm)]
  exact badFetch_stuck hsync hc hr hx hwant.2

/-- **All offered files**, if the client can get them: it takes over every one that is later than
its own. -/
theorem offerFiles_endsIn (hsync : h.syncing = true) (hc : h.files.Mirrors p c)
    (hr : h'.Mirrors q r) (hnd : names.Nodup) (hnames : ∀ f ∈ names, ∃ x, r.store f = some x)
    (hget : ∀ f ∈ names, Obtainable h' r.store c.store f) :
    ∃ s, s.Mirrors p (c.pull r.store names) ∧ h.files.SameSettings s ∧ ∀ k k' m m' t,
      Pair.EndsIn (α := α) (β := β) peers
          ⟨⟨h, Client.callReceiveFiles.bind k⟩,
          ⟨h', (RequestHandler.offerFiles (names.map (FileHost.entryOf r.store))).bind k'⟩,
          some [], some [], m, m'⟩ t ↔
        Pair.EndsIn peers
          ⟨⟨{ h with files := s }, Client.callReceiveFiles.bind k⟩,
          ⟨h', k' ()⟩, some [], some [], m, m'⟩ t := by
  induction names generalizing h c with
  | nil =>
    exact ⟨h.files, hc, .refl _, fun _ _ _ _ _ ↦ by
      rw [List.map_nil, RequestHandler.offerFiles, pure_eq, ret_bind]⟩
  | cons f names ih =>
    obtain ⟨hf, hnd⟩ := List.nodup_cons.mp hnd
    obtain ⟨x, hx⟩ := hnames f List.mem_cons_self
    obtain ⟨s, hs, hset, hone⟩ := offerFile_endsIn (α := α) (β := β)
      (names.map (FileHost.entryOf r.store)) hsync hc hr hx (hget f List.mem_cons_self)
    obtain ⟨s', hs', hset', hall⟩ := ih (h := { h with files := s }) hsync hs hnd
      (fun g hg ↦ hnames g (List.mem_cons_of_mem _ hg)) fun g hg ↦
        (obtainable_pullFile fun (e : g = f) ↦ hf (e ▸ hg)).mpr (hget g (List.mem_cons_of_mem _ hg))
    exact ⟨s', hs', hset.trans hset', fun k k' m m' t ↦ (hone ..).trans (hall ..)⟩

/-- **All offered files**, if there is one that the client cannot get. -/
theorem offerFiles_stuck (hsync : h.syncing = true) (hc : h.files.Mirrors p c)
    (hr : h'.Mirrors q r) (hnd : names.Nodup) (hnames : ∀ f ∈ names, ∃ x, r.store f = some x)
    (hget : ∃ f ∈ names, ¬ Obtainable h' r.store c.store f) {k' : Unit → RequestHandler.Prog β} :
    ¬ Pair.Completes peers ⟨⟨h, Client.callReceiveFiles.bind fun _ ↦ Client.concludeSync⟩,
        ⟨h', (RequestHandler.offerFiles (names.map (FileHost.entryOf r.store))).bind k'⟩,
        some [], some [], m, m'⟩ := by
  induction names generalizing h c with
  | nil =>
    obtain ⟨f, hf, -⟩ := hget
    cases hf
  | cons f names ih =>
    obtain ⟨hf, hnd⟩ := List.nodup_cons.mp hnd
    obtain ⟨x, hx⟩ := hnames f List.mem_cons_self
    rw [List.map_cons]
    by_cases hone : Obtainable h' r.store c.store f
    · obtain ⟨s, hs, -, hstep⟩ := offerFile_endsIn (α := Bool) (β := β)
        (names.map (FileHost.entryOf r.store)) hsync hc hr hx hone
      rw [Pair.completes_congr fun t ↦ hstep _ _ _ _ t]
      refine ih (h := { h with files := s }) hsync hs hnd
        (fun g hg ↦ hnames g (List.mem_cons_of_mem _ hg)) ?_
      obtain ⟨g, hg, hbad⟩ := hget
      rcases List.mem_cons.mp hg with rfl | hg
      · exact absurd hone hbad
      · exact ⟨g, hg, fun hgood ↦
          hbad ((obtainable_pullFile fun (e : g = f) ↦ hf (e ▸ hg)).mp hgood)⟩
    · exact offerFile_stuck hsync hc hr hx hone

end Offers

/-! ## The session

Both loops, one after the other. -/

open Relation (ReflTransGen)

/-- A client about to synchronise, and the server about to handle the request. -/
def syncStart (h : Client.Host) (h' : FileHost) (events : List FileEvent) : PeerPair Bool Bool where
  left := ⟨h, Client.syncClient events⟩
  right := ⟨h', RequestHandler.handleRequest .sync⟩
  toLeft := some []
  toRight := some []

section Closing

variable {α β : Type} {h : Client.Host} {h' : FileHost} {m m' : List (Parcel sessionWire)}

/-- The client has no more events, and the server looks at its files. -/
theorem closeEvents_endsIn {entries : List FileData} (hlist : h'.getFileInfoList = .ok entries)
    {k : Unit → Client.Prog α} {k' : List FileData → RequestHandler.Prog β} {t : PeerPair α β} :
    Pair.EndsIn peers ⟨⟨h, (sendPacket .fileEvent {}).bind k⟩,
        ⟨h', RequestHandler.callReceiveEvents.bind fun _ ↦
          (RequestHandler.file .getFileInfoList).bind k'⟩, some [], some [], m, m'⟩ t ↔
      Pair.EndsIn peers ⟨⟨h, k ()⟩, ⟨h', k' entries⟩, some [], some [], m, m'⟩ t := by
  simp only [left_send, deliver_some, List.nil_append, right_callReceiveEvents,
    RequestHandler.receiveEvents, RequestHandler.waitFor, bind_eq, bind_assoc, right_wait,
    expect_some, ret_bind, if_true, pure_eq]
  rw [right_file (FileOp.exec_getFileInfoList hlist)]

/-- The server has no more files, and the client is done. -/
theorem closeOffers_endsIn {k' : Option Ack → RequestHandler.Prog β} {t : PeerPair Bool β} :
    Pair.EndsIn peers ⟨⟨h, Client.callReceiveFiles.bind fun _ ↦ Client.concludeSync⟩,
        ⟨h', (sendPacket .fileData {}).bind fun _ ↦ (waitPacket .ack).bind k'⟩,
        some [], some [], m, m'⟩ t ↔
      Pair.EndsIn peers ⟨⟨{ h with syncing := false }, .ret true⟩, ⟨h', k' (some ⟨true⟩)⟩,
        some [], some [], m, m'⟩ t := by
  simp only [right_send, deliver_some, List.nil_append, left_callReceiveFiles, Client.receiveFiles,
    bind_eq, bind_assoc, left_wait, ne_eq, not_true_eq_false, if_false, pure_eq, ret_bind,
    Client.concludeSync, left_send, left_setSyncing, right_wait]

end Closing

section Completion

variable {h : Client.Host} {h' : FileHost} {events : List FileEvent} {p q : Path} {c r r' : Replica}

/-- The two programs, taken apart at the end of the events. -/
theorem syncStart_eq :
    syncStart h h' events = ⟨⟨h, (Client.setSyncing true).bind fun _ ↦
        (Client.sendEvents events).bind fun _ ↦ (sendPacket .fileEvent {}).bind fun _ ↦
          Client.callReceiveFiles.bind fun _ ↦ Client.concludeSync⟩,
      ⟨h', RequestHandler.callReceiveEvents.bind fun _ ↦
        (RequestHandler.file .getFileInfoList).bind fun allFiles ↦
          (RequestHandler.offerFiles allFiles).bind fun _ ↦ (sendPacket .fileData {}).bind fun _ ↦
            (discard (waitPacket .ack)).bind fun _ ↦ .ret true⟩, some [], some [], [], []⟩ := by
  rw [syncStart, Client.syncClient, RequestHandler.handleRequest, RequestHandler.syncServer]
  simp only [bind_eq, bind_assoc, Client.concludeSync]
  rfl

/-- The session after the events: the server offers the files it then has. -/
theorem syncStart_endsIn (hc : h.files.Mirrors p c) (hr : h'.Mirrors q r)
    (hw : ∀ event ∈ events, Watched h.files p event)
    (htake : r.takeEvents h.files c.store events = some r') :
    ∃ s, s.Mirrors q r' ∧ h'.SameSettings s ∧ ∀ t,
      (syncStart h h' events).EndsIn peers t ↔
        Pair.EndsIn peers
          ⟨⟨{ h with syncing := true }, Client.callReceiveFiles.bind fun _ ↦ Client.concludeSync⟩,
          ⟨s, (RequestHandler.offerFiles ((FlatDir.names s.machine q).map
            (FileHost.entryOf r'.store))).bind fun _ ↦ (sendPacket .fileData {}).bind fun _ ↦
            (discard (waitPacket .ack)).bind fun _ ↦ .ret true⟩,
          some [], some [], [], []⟩ t := by
  obtain ⟨s, hm, hset, hall⟩ := sendEvents_endsIn (h := { h with syncing := true }) (α := Bool)
    (β := Bool) rfl hc events hr hw htake
  refine ⟨s, hm, hset, fun t ↦ ?_⟩
  have hlist := FileHost.getFileInfoList_eq hm.flat
  rw [hm.view_eq] at hlist
  rw [syncStart_eq, left_setSyncing, hall]
  exact closeEvents_endsIn hlist

/-- Every file of a flat directory is offered once. -/
theorem mem_offered {s : FileHost} (hm : s.Mirrors q r') {f : Name} :
    f ∈ FlatDir.names s.machine q ↔ ∃ x, r'.store f = some x := by
  rw [hm.flat.mem_names, ← hm.view_eq]
  rfl

theorem Obtainable.congr {s : FileHost} {server client : Store} {f : Name}
    (hset : h'.SameSettings s) :
    Obtainable s server client f ↔ Obtainable h' server client f := by
  refine forall₂_congr fun x _ ↦ and_congr_right' (imp_congr_right fun _ ↦ ?_)
  exact ⟨fun hc ↦ hc.congr hset.reported.symm, fun hc ↦ hc.congr hset.reported⟩

/-- **A synchronisation that nothing stops** ends as it should. -/
theorem sync_endsIn (hc : h.files.Mirrors p c) (hr : h'.Mirrors q r)
    (hw : ∀ event ∈ events, Watched h.files p event)
    (htake : r.takeEvents h.files c.store events = some r')
    (hget : ∀ f, Obtainable h' r'.store c.store f) :
    ∃ s s' names, s.Mirrors q r' ∧ h'.SameSettings s ∧ s'.Mirrors p (c.pull r'.store names) ∧
      h.files.SameSettings s' ∧ Replica.Lists names r'.store ∧
      (syncStart h h' events).EndsIn peers
        ⟨⟨⟨s', false⟩, .ret true⟩, ⟨s, .ret true⟩, some [], some [], [], []⟩ := by
  obtain ⟨s, hm, hset, hstart⟩ := syncStart_endsIn hc hr hw htake
  obtain ⟨s', hm', hset', hall⟩ := offerFiles_endsIn (h := { h with syncing := true }) (α := Bool)
    (β := Bool) rfl hc hm hm.flat.names_nodup (fun f hf ↦ (mem_offered hm).mp hf)
    fun f _ ↦ (Obtainable.congr hset).mpr (hget f)
  refine ⟨s, s', _, hm, hset, hm', hset',
    ⟨hm.flat.names_nodup, fun f ↦ mem_offered hm⟩, ?_⟩
  rw [hstart, hall]
  simp only [discard_eq, bind_assoc, ret_bind]
  exact closeOffers_endsIn.mpr ⟨.refl, Pair.Returned.terminal ⟨rfl, rfl⟩⟩

/-- **What completes.** -/
theorem sync_completes_iff (hc : h.files.Mirrors p c) (hr : h'.Mirrors q r)
    (hw : ∀ event ∈ events, Watched h.files p event) :
    (syncStart h h' events).Completes peers ↔
      ∃ r', r.takeEvents h.files c.store events = some r' ∧
        ∀ f, Obtainable h' r'.store c.store f := by
  constructor
  · intro hdone
    cases htake : r.takeEvents h.files c.store events with
    | none =>
      rw [syncStart_eq, Pair.completes_congr fun _ ↦ left_setSyncing] at hdone
      exact absurd hdone
        (sendEvents_stuck (h := { h with syncing := true }) rfl hc events hr hw htake)
    | some r' =>
      refine ⟨r', rfl, fun f ↦ by_contra fun hget ↦ ?_⟩
      obtain ⟨s, hm, hset, hstart⟩ := syncStart_endsIn hc hr hw htake
      rw [Pair.completes_congr hstart] at hdone
      have hf : ∃ x, r'.store f = some x := by
        by_contra hnone
        exact hget fun x hx ↦ absurd ⟨x, hx⟩ hnone
      exact offerFiles_stuck (h := { h with syncing := true }) rfl hc hm hm.flat.names_nodup
        (fun f hf ↦ (mem_offered hm).mp hf)
        ⟨f, (mem_offered hm).mpr hf, fun hgood ↦ hget ((Obtainable.congr hset).mp hgood)⟩ hdone
  · rintro ⟨r', htake, hget⟩
    obtain ⟨s, s', names, -, -, -, -, -, hend⟩ := sync_endsIn hc hr hw htake hget
    exact ⟨_, true, true, hend, rfl, rfl⟩

/-- What a session that completes leaves behind. -/
theorem sync_returned (hc : h.files.Mirrors p c) (hr : h'.Mirrors q r)
    (hw : ∀ event ∈ events, Watched h.files p event) {t : PeerPair Bool Bool} {a b : Bool}
    (ht : (syncStart h h' events).EndsIn peers t) (hret : t.Returned a b) :
    ∃ r' names, r.takeEvents h.files c.store events = some r' ∧ t.right.host.Mirrors q r' ∧
      h'.SameSettings t.right.host ∧ t.left.host.files.Mirrors p (c.pull r'.store names) ∧
      h.files.SameSettings t.left.host.files ∧
      Replica.Lists names r'.store := by
  obtain ⟨r', htake, hget⟩ := (sync_completes_iff hc hr hw).mp ⟨t, a, b, ht, hret⟩
  obtain ⟨s, s', names, hm, hset, hm', hset', hlists, hend⟩ := sync_endsIn hc hr hw htake hget
  obtain rfl := ht.settlesIn.unique hend
  exact ⟨r', names, htake, hm, hset, hm', hset', hlists⟩

end Completion

/-! ## The session of which every count is right

The circumstances that are left when wrong counts of the client's files are excluded, and what a
finished session is to achieve. -/

/-- The circumstances of a synchronisation of the replicas `c` of the client and `r` of the
server. -/
structure SyncSetting (h : Client.Host) (h' : FileHost) (events : List FileEvent) (p q : Path)
    (c r : Replica) : Prop where
  /-- The sync directory of the client is flat, and holds the files of `c`. -/
  client : h.files.Mirrors p c
  /-- The sync directory of the server is flat, and holds the files of `r`. -/
  server : h'.Mirrors q r
  /-- The events are those of a watcher. -/
  watched : ∀ event ∈ events, Watched h.files p event
  /-- The files the server accepts still exist, and `read_file` counts them right. -/
  uploads : Uploadable h.files c.store r events
  /-- On the server `read_file` counts those right that the client may ask for. -/
  downloads : ∀ f x, (r.applyEvents c.store events).store f = some x → listedCount x.size ≠ 0 →
    x.modifiedTime > c.store.modifiedTime f → WellCounted h' x.contents

/-- What a finished synchronisation has achieved. -/
structure SyncDone (events : List FileEvent) (p q : Path) (c r : Replica)
    (t : PeerPair Bool Bool) : Prop where
  /-- Both programs have returned. -/
  returned : t.Returned true true
  /-- Nothing is left on the way to the client. -/
  toLeft : t.toLeft = some []
  /-- Nothing is left on the way to the server. -/
  toRight : t.toRight = some []
  /-- The server holds what the events make of its files. -/
  server : t.right.host.Mirrors q (r.applyEvents c.store events)
  /-- The client's directory is still flat. -/
  flat : FlatDir t.left.host.files.machine t.left.host.files.syncDir p
  /-- The client has taken over what the server had later copies of. -/
  client : Replica.Pulled (r.applyEvents c.store events).store c.store (t.left.host.files.view p)

/-- Under every schedule the synchronisation comes to an end where all this holds, and no datagram
is read as something else than it was sent as. -/
def SyncCorrect (h : Client.Host) (h' : FileHost) (events : List FileEvent) (p q : Path)
    (c r : Replica) : Prop :=
  (∃ t, (syncStart h h' events).SettlesIn peers t ∧ SyncDone events p q c r t) ∧
    ∀ y, ReflTransGen (Pair.Step peers) (syncStart h h' events) y → ¬ y.Confused

section Session

variable {h : Client.Host} {h' : FileHost} {events : List FileEvent} {p q : Path} {c r : Replica}

/-- A session that is correct completes. -/
theorem SyncCorrect.completes (hdone : SyncCorrect h h' events p q c r) :
    (syncStart h h' events).Completes peers := by
  obtain ⟨⟨t, ht, hdone⟩, -⟩ := hdone
  exact ⟨t, true, true, ht.ends, hdone.returned⟩

/-- With a file that is listed with no packets nothing completes. -/
theorem SyncSetting.not_completes (hs : SyncSetting h h' events p q c r) {f : Name} {x : File}
    (hx : (r.applyEvents c.store events).store f = some x) (hempty : listedCount x.size = 0) :
    ¬ (syncStart h h' events).Completes peers := by
  rw [sync_completes_iff hs.client hs.server hs.watched]
  rintro ⟨r', htake, hget⟩
  rw [Replica.takeEvents_of_uploadable hs.uploads] at htake
  cases htake
  exact (hget f x hx).1 hempty

/-- **A synchronisation is correct if and only if no file that the events leave on the server is
listed with no packets.** -/
theorem sync_correct_iff (hs : SyncSetting h h' events p q c r) :
    SyncCorrect h h' events p q c r ↔
      ∀ f x, (r.applyEvents c.store events).store f = some x → listedCount x.size ≠ 0 := by
  constructor
  · intro hdone f x hx hempty
    exact hs.not_completes hx hempty hdone.completes
  · intro hlisted
    obtain ⟨s, s', names, hm, -, hm', -, hlists, hend⟩ := sync_endsIn hs.client hs.server hs.watched
      (Replica.takeEvents_of_uploadable hs.uploads)
      fun f x hx ↦ ⟨hlisted f x hx, hs.downloads f x hx (hlisted f x hx)⟩
    refine ⟨⟨_, hend.settlesIn, ⟨rfl, rfl⟩, rfl, rfl, hm, hm'.flat, ?_⟩,
      fun y hy ↦ hend.settlesIn.not_confused ⟨rfl, rfl⟩ hy⟩
    rw [hm'.view_eq]
    exact hlists.pulled c

/-- A client that has edited a file `f` at time 5. -/
def edited : Client.Host :=
  ⟨.ofFiles Nat.cast ['c'] [(['f'], ⟨.threeBytes, 5⟩)] countPackets, false⟩

/-- The event of that edit. -/
def editEvent : FileEvent := ⟨⟨['/', 'c', '/', 'f'], 3, 5⟩, .modify⟩

/-- What that event leaves on a server that had nothing. -/
theorem edited_applied {f : Name} {x : File}
    (hx : (((blank ['s']).replica [['s']]).applyEvents (edited.files.replica [['c']]).store
      [editEvent]).store f = some x) : f = ['f'] ∧ x = ⟨.threeBytes, 0⟩ := by
  have hsaved : ((blank ['s']).replica [['s']]).applyEvents (edited.files.replica [['c']]).store
      [editEvent] = ((blank ['s']).replica [['s']]).save ['f'] .threeBytes := rfl
  rw [hsaved, Replica.save_store] at hx
  by_cases hf : f = ['f']
  · subst hf
    rw [Store.save_self] at hx
    cases hx
    exact ⟨rfl, rfl⟩
  · rw [Store.save_of_ne _ _ hf] at hx
    exact absurd (FileHost.mem_of_replica_ofFiles hx) List.not_mem_nil

theorem syncSetting_edited :
    SyncSetting edited (blank ['s']) [editEvent] [['c']] [['s']] (edited.files.replica [['c']])
      ((blank ['s']).replica [['s']]) := by
  refine ⟨FileHost.mirrors_ofFiles rfl (by decide), FileHost.mirrors_ofFiles rfl (by decide), ?_,
    ⟨fun _ ↦ ⟨_, rfl, wellCounted_of_lt rfl (by decide) (by decide)⟩, trivial⟩, ?_⟩
  · intro event hevent
    obtain rfl := List.mem_singleton.mp hevent
    exact ⟨by decide, rfl, by decide, rfl⟩
  · intro f x hx _ hlate
    obtain ⟨rfl, rfl⟩ := edited_applied hx
    exact absurd hlate (by decide)

/-- The edit arrives at a server that had nothing. -/
theorem edit_synced :
    SyncCorrect edited (blank ['s']) [editEvent] [['c']] [['s']] (edited.files.replica [['c']])
      ((blank ['s']).replica [['s']]) := by
  rw [sync_correct_iff syncSetting_edited]
  intro f x hx
  obtain ⟨-, rfl⟩ := edited_applied hx
  decide

/-- A server that has an empty file `f`, with what its `read_file` reports. -/
def emptyFileServer (reported : Nat → Nat) : FileHost :=
  .ofFiles Nat.cast ['s'] [(['f'], ⟨.empty, 0⟩)] reported

/-- The count that `read_file` would report if it counted the packets it returns. -/
def exactCount (size : Nat) : Nat := size / packetSize + 1

theorem exactCount_eq_length (c : Contents) :
    exactCount c.bytes.length = (packetsOf c).length :=
  (length_packetsOf c).symm

theorem syncSetting_emptyFile (reported : Nat → Nat) :
    SyncSetting ⟨blank ['c'], false⟩ (emptyFileServer reported) [] [['c']] [['s']]
      ((blank ['c']).replica [['c']]) ((emptyFileServer reported).replica [['s']]) := by
  refine ⟨FileHost.mirrors_ofFiles rfl (by decide), FileHost.mirrors_ofFiles rfl (by decide),
    by simp, trivial, fun f x hx hlisted ↦ ?_⟩
  obtain ⟨rfl, rfl⟩ := Prod.mk.inj (List.mem_singleton.mp (FileHost.mem_of_replica_ofFiles hx))
  exact absurd listedCount_zero hlisted

/-- An empty file on the server stops every synchronisation, whatever `read_file` reports. -/
theorem not_syncCorrect_emptyFile (reported : Nat → Nat) :
    ¬ SyncCorrect ⟨blank ['c'], false⟩ (emptyFileServer reported) [] [['c']] [['s']]
      ((blank ['c']).replica [['c']]) ((emptyFileServer reported).replica [['s']]) := by
  exact fun hdone ↦ (syncSetting_emptyFile reported).not_completes (f := ['f']) rfl
    listedCount_zero hdone.completes

/-- With no events and one empty file on the server, every premise holds and the session does not
end: with the count of the source, and with one that is right for every file. -/
theorem empty_file_stops_sync :
    (SyncSetting ⟨blank ['c'], false⟩ (emptyFileServer countPackets) [] [['c']] [['s']]
        ((blank ['c']).replica [['c']]) ((emptyFileServer countPackets).replica [['s']]) ∧
      ¬ SyncCorrect ⟨blank ['c'], false⟩ (emptyFileServer countPackets) [] [['c']] [['s']]
        ((blank ['c']).replica [['c']]) ((emptyFileServer countPackets).replica [['s']])) ∧
    ((∀ c : Contents, exactCount c.bytes.length = (packetsOf c).length) ∧
      SyncSetting ⟨blank ['c'], false⟩ (emptyFileServer exactCount) [] [['c']] [['s']]
        ((blank ['c']).replica [['c']]) ((emptyFileServer exactCount).replica [['s']]) ∧
      ¬ SyncCorrect ⟨blank ['c'], false⟩ (emptyFileServer exactCount) [] [['c']] [['s']]
        ((blank ['c']).replica [['c']]) ((emptyFileServer exactCount).replica [['s']])) :=
  ⟨⟨syncSetting_emptyFile _, not_syncCorrect_emptyFile _⟩,
    exactCount_eq_length, syncSetting_emptyFile _, not_syncCorrect_emptyFile _⟩

end Session
end Bropdox
