import Bropdox.Arrivals
import Bropdox.Sync
import Bropdox.Session.Transcripts

/-!
# What the server does with the events of a batch

The order of the client's events matters on the server: a file that is created, removed and created
again is there in the end.  This file says that the request handler reacts to the events one by one
in the order of the batch, and that this is so under every schedule and at every moment of a
session, also of one that never ends.

## What is here

* `Reaction` is what the request handler does in the first loop of `sync_server`, as far as it can
  be seen at its socket: it answers an event, or it is told of an upload.  `reactions` reads the
  reactions off what is seen of the handler.
* `Replica.round` and `Replica.reactions` say what they are to be, in terms of stores: one answer
  for each event, and an upload behind each one that is accepted.
* The lemmas `run_*` follow one endpoint on its own through the statements of its program.
* `GoesThrough` says that the two programs fit together, each reading what the other has sent;
  `sendEvent_goesThrough` follows both through one event, and `sendEvents_goesThrough` through a
  batch.
* `reactions_prefix`: under every schedule the reactions of the server are a beginning of those of
  the specification, by `Pair.Run.comparable`.
-/

set_option autoImplicit false

namespace Bropdox

open FileSystem Session Program SocketHandler

/-! ## Reactions

What is seen of the server, read as reactions. -/

/-- What the server does in the first loop of `sync_server`. -/
inductive Reaction
  /-- The server answers an event. -/
  | answer (event : FileEvent) (confirmation : Bool)
  /-- The server is told of an upload, which it then receives. -/
  | upload (file : Name)

namespace Reaction

/-- The event that is answered. -/
def event? : Reaction → Option FileEvent
  | answer event _ => some event
  | upload _ => none

/-- A creation or modification of the file is accepted. -/
def Accepts (f : Name) : Reaction → Prop
  | answer event confirmation =>
    (event.event = .create ∨ event.event = .modify) ∧ event.fileName = f ∧ confirmation = true
  | upload _ => False

/-- The file is uploaded. -/
def Uploads (f : Name) : Reaction → Prop
  | answer .. => False
  | upload g => g = f

/-- The file is removed. -/
def Removes (f : Name) : Reaction → Prop
  | answer event _ => event.event = .remove ∧ event.fileName = f
  | upload _ => False

instance (f : Name) : DecidablePred (Accepts f)
  | answer .. => inferInstanceAs (Decidable (_ ∧ _))
  | upload _ => inferInstanceAs (Decidable False)

instance (f : Name) : DecidablePred (Uploads f)
  | answer .. => inferInstanceAs (Decidable False)
  | upload _ => inferInstanceAs (Decidable (_ = _))

end Reaction

/-- The reactions in what is seen of a request handler, where `waiting` has not been answered yet.
The first loop ends when an event of kind `close` is read. -/
def reactions : Option FileEvent → List (Session.Event sessionWire) → List Reaction
  | _, [] => []
  | waiting, ev :: evs =>
    match ev, waiting with
    | .got _ (_, ⟨.fileEvent, event⟩), _ =>
      if event.event = .close then [] else reactions (some event) evs
    | .got _ (_, ⟨.fileData, fileData⟩), waiting =>
      if fileData.numPackets = 0 then reactions waiting evs
      else .upload fileData.file.name :: reactions waiting evs
    | .sent (_, ⟨.ack, ack⟩), some event => .answer event ack.confirmation :: reactions none evs
    | _, waiting => reactions waiting evs

/-- What is seen later adds to the reactions. -/
theorem reactions_append (waiting : Option FileEvent)
    (evs more : List (Session.Event sessionWire)) :
    reactions waiting evs <+: reactions waiting (evs ++ more) := by
  induction evs generalizing waiting with
  | nil => exact List.nil_prefix
  | cons ev evs ih =>
    rw [List.cons_append]
    unfold reactions
    split
    · split
      · exact List.prefix_rfl
      · exact ih _
    · split
      · exact ih _
      · exact List.prefix_cons_inj _ |>.mpr (ih _)
    · exact List.prefix_cons_inj _ |>.mpr (ih _)
    · exact ih _

/-- Packets are no reactions. -/
theorem reactions_taken (waiting : Option FileEvent) (packets : List Packet)
    (evs : List (Session.Event sessionWire)) :
    reactions waiting (taken packets ++ evs) = reactions waiting evs := by
  induction packets with
  | nil => rfl
  | cons packet packets ih => exact ih

/-! ## What they are to be

The reactions that the specification gives, from the stores of the two sides. -/

namespace Replica

/-- The reactions to one event. -/
def round (r : Replica) (event : FileEvent) : List Reaction :=
  .answer event (decide (r.Accepts event ∨ event.event = .remove)) ::
    if r.Accepts event then [.upload event.fileName] else []

/-- The reactions to a list of events. -/
def reactions (client : Store) : Replica → List FileEvent → List Reaction
  | _, [] => []
  | r, event :: events => r.round event ++ reactions client (r.applyEvent client event) events

/-- Every event is answered, in the order of the batch. -/
theorem filterMap_event?_reactions (client : Store) (r : Replica) (events : List FileEvent) :
    (r.reactions client events).filterMap Reaction.event? = events := by
  induction events generalizing r with
  | nil => rfl
  | cons event events ih =>
    have hround : (r.round event).filterMap Reaction.event? = [event] := by
      rw [round]
      split <;> rfl
    rw [reactions, List.filterMap_append, hround, ih]
    rfl

end Replica

/-! ## One endpoint on its own

Each program, with what it receives given in advance. -/

section Sending

variable {P : Sig} {α : Type} {body : Bodies sessionWire P} {h : P.Host}
  {e : Endpoint sessionWire P α} {i j : Inbox sessionWire}
  {evs : List (Session.Event sessionWire)}

/-- The sending loop. -/
theorem run_sendPackets {κ : Kind} {ms : List κ.Msg} {k : Unit → Program sessionWire P α}
    (hr : Endpoint.Run typed body ⟨h, k ()⟩ i evs e j) :
    Endpoint.Run typed body ⟨h, (sendPackets κ ms).bind k⟩ i
      (ms.map (fun m ↦ .sent (parcel κ m)) ++ evs) e j := by
  induction ms with
  | nil => exact hr
  | cons m ms ih =>
    rw [sendPackets, bind_eq, Program.bind_assoc]
    exact .emit ih

end Sending

section Client

variable {h : Client.Host} {file : Name} {event : FileEvent}

/-- Wait for an acknowledgement. -/
theorem run_waitAck {α : Type} {b : Bool} {k : Bool → Client.Prog α}
    {rest : List (Parcel sessionWire)} {e : Endpoint sessionWire Client.sig α}
    {j : Inbox sessionWire} {evs : List (Session.Event sessionWire)}
    (hr : Endpoint.Run typed Client.body ⟨h, k b⟩ (some rest) evs e j) :
    Endpoint.Run typed Client.body ⟨h, Client.waitAck.bind k⟩ (some (parcel .ack ⟨b⟩ :: rest))
      (.got .ack (parcel .ack ⟨b⟩) :: evs) e j := by
  rw [Client.waitAck, bind_eq, Program.bind_assoc]
  exact .await (typed_self ..) hr

theorem exec_isSyncing (hsync : h.syncing = true) :
    Client.Op.exec .isSyncing h = .ok (true, h) := by
  rw [← hsync]
  rfl

/-- `send_file` during a synchronisation, where everything is acknowledged. -/
theorem run_sendFile (hsync : h.syncing = true) {read : ReadResult} {info : FileInfo}
    (hread : h.files.readFile file = .ok read) (hinfo : h.files.getFileInfo file = .ok info) :
    Endpoint.Run typed Client.body ⟨h, Client.sendFile file⟩
      (some [parcel .ack ⟨true⟩, parcel .ack ⟨true⟩])
      (.sent (parcel .fileData ⟨info, .ofNat read.fileSizeInPackets⟩) ::
        .got .ack (parcel .ack ⟨true⟩) ::
          (read.packets.map (fun packet ↦ .sent (parcel .packet packet)) ++
            [.got .ack (parcel .ack ⟨true⟩)]))
      ⟨h, .ret true⟩ (some []) := by
  rw [Client.sendFile, bind_eq]
  refine Endpoint.Run.operation (P := Client.sig)
    (Client.Op.exec_file (FileOp.exec_readFile hread)) ?_
  refine Endpoint.Run.operation (P := Client.sig)
    (Client.Op.exec_file (FileOp.exec_getFileInfo hinfo)) ?_
  refine .emit (run_waitAck ?_)
  refine run_sendPackets ?_
  refine run_waitAck ?_
  show Endpoint.Run typed Client.body
    ⟨h, (Client.keepUnlessSyncing file).bind fun _ ↦ .ret true⟩ _ _ _ _
  rw [Client.keepUnlessSyncing, bind_eq, Program.bind_assoc]
  refine Endpoint.Run.operation (P := Client.sig) (exec_isSyncing hsync) ?_
  exact .nil ..

/-- `delete_file` during a synchronisation. -/
theorem run_deleteFile (hsync : h.syncing = true) {info : FileInfo} (deleted : Bool)
    (hinfo : h.files.getFileInfo file = .ok info) :
    Endpoint.Run typed Client.body ⟨h, Client.deleteFile file⟩ (some [parcel .ack ⟨deleted⟩])
      [.sent (parcel .fileData ⟨info, 0⟩), .got .ack (parcel .ack ⟨deleted⟩)]
      ⟨h, .ret deleted⟩ (some []) := by
  rw [Client.deleteFile, bind_eq]
  refine Endpoint.Run.operation (P := Client.sig)
    (Client.Op.exec_file (FileOp.exec_getFileInfo hinfo)) ?_
  refine .emit ?_
  refine Endpoint.Run.operation (P := Client.sig) (exec_isSyncing hsync) ?_
  refine run_waitAck (run_resetUnlessSyncing ?_)
  rw [Peers.socketAfter, if_pos hsync]
  exact .nil ..

/-- An event that the server does not want. -/
theorem run_sendEvent_unwanted (h : Client.Host) (event : FileEvent) :
    Endpoint.Run typed Client.body ⟨h, Client.sendEvent event⟩ (some [parcel .ack ⟨false⟩])
      [.sent (parcel .fileEvent event), .got .ack (parcel .ack ⟨false⟩)]
      ⟨h, .ret ()⟩ (some []) := by
  rw [Client.sendEvent, bind_eq]
  exact .emit (run_waitAck (.nil ..))

/-- A creation or modification that it wants. -/
theorem run_sendEvent_write (he : event.event = .create ∨ event.event = .modify) {a : Bool}
    {ps : List (Parcel sessionWire)} {evs : List (Session.Event sessionWire)}
    (hr : Endpoint.Run typed Client.body ⟨h, Client.sendFile event.file.name⟩ (some ps) evs
      ⟨h, .ret a⟩ (some [])) :
    Endpoint.Run typed Client.body ⟨h, Client.sendEvent event⟩ (some (parcel .ack ⟨true⟩ :: ps))
      (.sent (parcel .fileEvent event) :: .got .ack (parcel .ack ⟨true⟩) :: evs)
      ⟨h, .ret ()⟩ (some []) := by
  rw [sendEvent_write he]
  refine .emit (run_waitAck ?_)
  exact Endpoint.Run.invoke (hr.bind _)

/-- A removal. -/
theorem run_sendEvent_remove (he : event.event = .remove) {a : Bool}
    {ps : List (Parcel sessionWire)} {evs : List (Session.Event sessionWire)}
    (hr : Endpoint.Run typed Client.body ⟨h, Client.deleteFile event.file.name⟩ (some ps) evs
      ⟨h, .ret a⟩ (some [])) :
    Endpoint.Run typed Client.body ⟨h, Client.sendEvent event⟩ (some (parcel .ack ⟨true⟩ :: ps))
      (.sent (parcel .fileEvent event) :: .got .ack (parcel .ack ⟨true⟩) :: evs)
      ⟨h, .ret ()⟩ (some []) := by
  simp only [Client.sendEvent, he, bind_eq]
  refine .emit (run_waitAck ?_)
  exact hr.bind _

end Client

section Handler

variable {h s : FileHost} {event : FileEvent} {ps : List (Parcel sessionWire)}
  {evs : List (Session.Event sessionWire)}

/-- The first loop of `sync_server` turns once. -/
theorem run_receiveEvents (he : event.event ≠ .close)
    (hr : Endpoint.Run typed RequestHandler.body ⟨h, RequestHandler.receiveEvent event⟩ (some ps)
      evs ⟨s, .ret ()⟩ (some [])) :
    Endpoint.Run typed RequestHandler.body ⟨h, RequestHandler.callReceiveEvents⟩
      (some (parcel .fileEvent event :: ps)) (.got .fileEvent (parcel .fileEvent event) :: evs)
      ⟨s, RequestHandler.callReceiveEvents⟩ (some []) := by
  have hbody : Endpoint.Run typed RequestHandler.body ⟨h, RequestHandler.receiveEvents⟩
      (some (parcel .fileEvent event :: ps)) (.got .fileEvent (parcel .fileEvent event) :: evs)
      ⟨s, RequestHandler.callReceiveEvents⟩ (some []) := by
    rw [RequestHandler.receiveEvents, RequestHandler.waitFor, bind_eq, bind_eq, Program.bind_assoc]
    refine .await (typed_self ..) ?_
    simp only [expect_some, ret_bind, if_neg he]
    exact hr.bind _
  rw [← bind_ret RequestHandler.receiveEvents] at hbody
  exact Endpoint.Run.invoke hbody

/-- A creation or modification that is not newer than the file. -/
theorem run_receiveEvent_stale (he : event.event = .create ∨ event.event = .modify)
    (hfresh : h.checkFreshness event.file = .ok false) :
    Endpoint.Run typed RequestHandler.body ⟨h, RequestHandler.receiveEvent event⟩ (some [])
      [.sent (parcel .ack ⟨false⟩)] ⟨h, .ret ()⟩ (some []) := by
  rw [receiveEvent_write he]
  refine Endpoint.Run.operation (P := RequestHandler.sig)
    (FileOp.exec_checkFreshness hfresh) ?_
  exact .emit (.nil ..)

/-- A creation or modification that is newer than the file, and the upload that it is followed by.
-/
theorem run_receiveEvent_fresh (he : event.event = .create ∨ event.event = .modify)
    (hfresh : h.checkFreshness event.file = .ok true) {d : FileData} {packets : List Packet}
    (hpos : d.numPackets ≠ 0) (hn : d.numPackets.toNat = packets.length) :
    Endpoint.Run typed RequestHandler.body ⟨h, RequestHandler.receiveEvent event⟩
      (some (parcel .fileData d :: arriving packets))
      (.sent (parcel .ack ⟨true⟩) :: .got .fileData (parcel .fileData d) ::
        .sent (parcel .ack ⟨true⟩) :: (taken packets ++ [.sent (parcel .ack ⟨true⟩)]))
      ⟨h.store d.file.name [] packets, .ret ()⟩ (some []) := by
  have hfile := handler_run (h := h) d.file.name [] hn
  rw [List.append_nil] at hfile
  rw [receiveEvent_write he]
  refine Endpoint.Run.operation (P := RequestHandler.sig)
    (FileOp.exec_checkFreshness hfresh) ?_
  refine .emit ?_
  simp only [Bool.not_true, Bool.false_eq_true, if_false, Peers.expectUpload,
    RequestHandler.waitFor, bind_eq, Program.bind_assoc]
  refine .await (typed_self ..) ?_
  simp only [expect_some, ret_bind, RequestHandler.receiveAnnounced, bind_eq]
  rw [if_neg (by simpa using hpos), Program.bind_assoc]
  exact .emit ((hfile.bind _).bind _)

/-- A removal. -/
theorem run_receiveEvent_remove (he : event.event = .remove) {d : FileData} {deleted : Bool}
    (hdel : h.deleteFile d.file.name = .ok (deleted, s)) :
    Endpoint.Run typed RequestHandler.body ⟨h, RequestHandler.receiveEvent event⟩
      (some [parcel .fileData d])
      [.sent (parcel .ack ⟨true⟩), .got .fileData (parcel .fileData d),
        .sent (parcel .ack ⟨deleted⟩)]
      ⟨s, .ret ()⟩ (some []) := by
  simp only [RequestHandler.receiveEvent, he, bind_eq, RequestHandler.waitFor]
  refine .emit ?_
  rw [Program.bind_assoc]
  refine .await (typed_self ..) ?_
  simp only [expect_some, ret_bind, RequestHandler.deleteFile, bind_eq]
  refine Endpoint.Run.operation (P := RequestHandler.sig) (o := .deleteFile _) hdel ?_
  cases deleted
  · exact .emit (.nil ..)
  · exact .emit (.nil ..)

end Handler

/-! ## Both sides

Two runs of one endpoint each fit together if each receives what the other sends. -/

theorem crossing_session (a b : Unit) (evs : List (Session.Event sessionWire)) :
    crossing a b evs = outgoing evs := by
  rw [crossing, forPeer, List.filter_eq_self.mpr fun _ _ ↦ decide_eq_true rfl]
  exact List.map_id' _

theorem outgoing_taken (packets : List Packet) : outgoing (taken packets) = [] :=
  outgoing_map_got ..

/-- Two runs of which each is on what is sent in the other. -/
theorem lockstep_of_runs {α β : Type} {l l' : Endpoint sessionWire Client.sig α}
    {r r' : Endpoint sessionWire RequestHandler.sig β} {evs evs' : List (Session.Event sessionWire)}
    {toLeft toRight : List (Parcel sessionWire)}
    (hl : Endpoint.Run typed Client.body l (some toLeft) evs l' (some []))
    (hr : Endpoint.Run typed RequestHandler.body r (some toRight) evs' r' (some []))
    (hleft : outgoing evs' = toLeft) (hright : outgoing evs = toRight) :
    Lockstep peers l r evs evs' l' r' := by
  subst hleft hright
  refine ⟨?_, ?_⟩
  · rw [crossing_session]
    exact hl
  · rw [crossing_session]
    exact hr

section Events

variable {h : Client.Host} {h' : FileHost} {p q : Path} {c r : Replica} {event : FileEvent}
  {events : List FileEvent}

/-- The client's program `prog` and the first loop of `sync_server` go through what the client sends
together: the server reacts as expected, keeps the files of `s`, and is at the loop again. -/
def GoesThrough (h : Client.Host) (h' : FileHost) (q : Path) (s : Replica)
    (prog : Client.Prog Unit) (expected : List Reaction) : Prop :=
  ∃ evs evs' s', Lockstep peers ⟨h, prog⟩ ⟨h', RequestHandler.callReceiveEvents⟩ evs evs'
      ⟨h, .ret ()⟩ ⟨s', RequestHandler.callReceiveEvents⟩ ∧
    s'.Mirrors q s ∧ ∀ more, reactions none (evs' ++ more) = expected ++ reactions none more

/-- An event that the server does not accept. -/
theorem staleEvent_goesThrough (hr : h'.Mirrors q r) (hw : Watched h.files p event)
    (he : event.event = .create ∨ event.event = .modify) (hstale : ¬ r.Accepts event) :
    GoesThrough h h' q (r.applyEvent c.store event) (Client.sendEvent event) (r.round event) := by
  have hclose := Replica.ne_close_of_write he
  have hremove := Replica.ne_remove_of_write he
  have hfresh := hw.checkFreshness hr he
  rw [decide_eq_false hstale] at hfresh
  rw [Replica.applyEvent_stale _ hstale hremove]
  refine ⟨_, _, h', lockstep_of_runs (run_sendEvent_unwanted h event)
    (run_receiveEvents hclose (run_receiveEvent_stale he hfresh)) rfl rfl, hr, fun more ↦ ?_⟩
  simp [reactions, Replica.round, hclose, hstale, hremove]

/-- An event that it accepts, of a file whose packet count is right. -/
theorem acceptedEvent_goesThrough (hsync : h.syncing = true) (hc : h.files.Mirrors p c)
    (hr : h'.Mirrors q r) (hw : Watched h.files p event) (hacc : r.Accepts event) {x : File}
    (hx : c.store event.fileName = some x) (hcount : WellCounted h.files x.contents) :
    GoesThrough h h' q (r.applyEvent c.store event) (Client.sendEvent event) (r.round event) := by
  have hclose := Replica.ne_close_of_write hacc.1
  have hfresh := hw.checkFreshness hr hacc.1
  rw [decide_eq_true hacc] at hfresh
  have hread := FileHost.readFile_eq hc.flat hw.readPath (hc.view_eq ▸ hx)
  have hinfo := FileHost.getFileInfo_eq hc.flat hw.soughtName hw.plain
  rw [Replica.applyEvent_accepted hacc hx]
  refine ⟨_, _, h'.store event.fileName [] (packetsOf x.contents),
    lockstep_of_runs (run_sendEvent_write hacc.1 (run_sendFile hsync hread hinfo))
      (run_receiveEvents hclose (run_receiveEvent_fresh hacc.1 hfresh
        (d := ⟨infoOf (h.files.view p) event.fileName, .ofNat (h.files.reported x.size)⟩)
        hcount.pos hcount.eq_length)) ?_ ?_,
    hr.store (soughtName_plain hw.plain) hw.plain x.contents, fun more ↦ ?_⟩
  · simp [outgoing_taken]
  · simp [outgoing_map_sent, arriving]
  · have hpos : UInt32.ofNat (h.files.reported x.size) ≠ 0 := hcount.pos
    simp [reactions, reactions_taken, Replica.round, hclose, hacc, hpos]

/-- A removal. -/
theorem removeEvent_goesThrough (hsync : h.syncing = true) (hc : h.files.Mirrors p c)
    (hr : h'.Mirrors q r) (hw : Watched h.files p event) (he : event.event = .remove) :
    GoesThrough h h' q (r.applyEvent c.store event) (Client.sendEvent event) (r.round event) := by
  have hclose : event.event ≠ .close := by rw [he]; decide
  have hacc := r.not_accepts_of_remove he
  have hinfo := FileHost.getFileInfo_eq hc.flat hw.soughtName hw.plain
  obtain ⟨s', hdel, hs, -⟩ := hr.delete hw.plain
  rw [Replica.applyEvent_remove _ _ he]
  refine ⟨_, _, s', lockstep_of_runs (run_sendEvent_remove he (run_deleteFile hsync _ hinfo))
      (run_receiveEvents hclose (run_receiveEvent_remove he
        (d := ⟨infoOf (h.files.view p) event.fileName, 0⟩) hdel)) rfl rfl, hs, fun more ↦ ?_⟩
  simp [reactions, Replica.round, hacc, he]

/-- **One event.** -/
theorem sendEvent_goesThrough (hsync : h.syncing = true) (hc : h.files.Mirrors p c)
    (hr : h'.Mirrors q r) (hw : Watched h.files p event)
    (hup : r.Accepts event →
      ∃ x, c.store event.fileName = some x ∧ WellCounted h.files x.contents) :
    GoesThrough h h' q (r.applyEvent c.store event) (Client.sendEvent event) (r.round event) := by
  by_cases hacc : r.Accepts event
  · obtain ⟨x, hx, hcount⟩ := hup hacc
    exact acceptedEvent_goesThrough hsync hc hr hw hacc hx hcount
  · rcases hw.kind with he | he | he
    · exact staleEvent_goesThrough hr hw (.inl he) hacc
    · exact staleEvent_goesThrough hr hw (.inr he) hacc
    · exact removeEvent_goesThrough hsync hc hr hw he

/-- **All events.** -/
theorem sendEvents_goesThrough (hsync : h.syncing = true) (hc : h.files.Mirrors p c)
    (hr : h'.Mirrors q r) (hw : ∀ event ∈ events, Watched h.files p event)
    (hup : Uploadable h.files c.store r events) :
    GoesThrough h h' q (r.applyEvents c.store events) (Client.sendEvents events)
      (r.reactions c.store events) := by
  induction events generalizing r h' with
  | nil => exact ⟨[], [], h', .refl _ _, hr, fun _ ↦ rfl⟩
  | cons event events ih =>
    obtain ⟨evs, evs', s, hone, hs, hround⟩ :=
      sendEvent_goesThrough hsync hc hr (hw event List.mem_cons_self) hup.1
    obtain ⟨more, more', s', hall, hs', hrest⟩ :=
      ih hs (fun e he ↦ hw e (List.mem_cons_of_mem _ he)) hup.2
    refine ⟨evs ++ more, evs' ++ more', s', ?_, hs', fun later ↦ ?_⟩
    · have hfirst := hone.bind (fun _ ↦ Client.sendEvents events) .ret
      simp only [bind_ret] at hfirst
      exact hfirst.trans hall
    · rw [List.append_assoc, hround, hrest, Replica.reactions, List.append_assoc]

end Events

/-! ## The session

The handshake has been answered, and both programs begin. -/

section Session

variable {h : Client.Host} {h' : FileHost} {p q : Path} {c r : Replica}
  {events : List FileEvent} {evs : List (Session.Event sessionWire)} {y : PeerPair Bool Bool}

/-- The client notes that it synchronises. -/
theorem setSyncing_lockstep {α β : Type} {b : Bool} {k : Unit → Client.Prog α}
    {e : Endpoint sessionWire RequestHandler.sig β} :
    Lockstep peers ⟨h, (Client.setSyncing b).bind k⟩ e [] [] ⟨{ h with syncing := b }, k ()⟩ e :=
  lockstep_of_runs (Endpoint.Run.operation (P := Client.sig) (o := .setSyncing b) rfl (.nil ..))
    (.nil ..) rfl rfl

/-- The client says that it has no more events. -/
theorem close_lockstep {α β : Type} {k : Unit → Client.Prog α} {k' : Unit → RequestHandler.Prog β} :
    Lockstep peers ⟨h, (sendPacket .fileEvent {}).bind k⟩
      ⟨h', RequestHandler.callReceiveEvents.bind k'⟩ [.sent (parcel .fileEvent {})]
      [.got .fileEvent (parcel .fileEvent {})] ⟨h, k ()⟩ ⟨h', k' ()⟩ := by
  have hbody : Endpoint.Run typed RequestHandler.body
      ⟨h', RequestHandler.receiveEvents.bind k'⟩ (some [parcel .fileEvent {}])
      [.got .fileEvent (parcel .fileEvent {})] ⟨h', k' ()⟩ (some []) := by
    rw [RequestHandler.receiveEvents, RequestHandler.waitFor, bind_eq, bind_eq,
      Program.bind_assoc, Program.bind_assoc]
    exact .await (typed_self ..) (.nil ..)
  exact lockstep_of_runs (.emit (.nil ..)) (Endpoint.Run.invoke hbody) rfl rfl

/-- **The first loop**, from the beginning of the session to its end. -/
theorem firstLoop_lockstep {α β : Type} (hc : h.files.Mirrors p c) (hr : h'.Mirrors q r)
    (hw : ∀ event ∈ events, Watched h.files p event) (hup : Uploadable h.files c.store r events)
    (k : Unit → Client.Prog α) (k' : Unit → RequestHandler.Prog β) :
    ∃ evs evs' s, Lockstep peers
        ⟨h, (Client.setSyncing true).bind fun _ ↦ (Client.sendEvents events).bind fun _ ↦
          (sendPacket .fileEvent {}).bind k⟩
        ⟨h', RequestHandler.callReceiveEvents.bind k'⟩ evs evs'
        ⟨{ h with syncing := true }, k ()⟩ ⟨s, k' ()⟩ ∧
      ∀ more, reactions none (evs' ++ more) = r.reactions c.store events := by
  obtain ⟨evs, evs', s, hall, -, hreact⟩ :=
    sendEvents_goesThrough (h := { h with syncing := true }) rfl hc hr hw hup
  have hevents := hall.bind (fun _ ↦ (sendPacket .fileEvent {}).bind k) k'
  refine ⟨_, _, s, setSyncing_lockstep.trans (hevents.trans close_lockstep), fun more ↦ ?_⟩
  rw [List.nil_append, List.append_assoc, hreact]
  exact List.append_nil _

/-- **Under every schedule, the reactions of the server are those of the specification**, as far as
it has got. -/
theorem reactions_prefix (hc : h.files.Mirrors p c) (hr : h'.Mirrors q r)
    (hw : ∀ event ∈ events, Watched h.files p event) (hup : Uploadable h.files c.store r events)
    (hrun : Pair.Run peers (syncStart h h' events) evs y) :
    reactions none evs <+: r.reactions c.store events := by
  rw [syncStart_eq] at hrun
  obtain ⟨left, right, s, hall, hreact⟩ := firstLoop_lockstep hc hr hw hup
    (fun _ ↦ Client.callReceiveFiles.bind fun _ ↦ Client.concludeSync)
    fun _ ↦ (RequestHandler.file .getFileInfoList).bind fun allFiles ↦
      (RequestHandler.offerFiles allFiles).bind fun _ ↦ (sendPacket .fileData {}).bind fun _ ↦
        (discard (waitPacket .ack)).bind fun _ ↦ .ret true
  rcases hrun.comparable hall.fits with ⟨more, rfl⟩ | ⟨more, rfl⟩
  · rw [← hreact [], List.append_nil]
    exact reactions_append ..
  · rw [hreact]

end Session

end Bropdox
