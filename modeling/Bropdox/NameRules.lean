import Bropdox.Household
import Bropdox.Merging
import Bropdox.Session.Reading

/-!
# What is done with names

A name that a client sends in a message comes back in others and is handed to the file handler on
both sides, and all of this goes by the same few statements of the programs.  Several facts about a
session come down to following the names: that they fit into the messages, that they stay in the
user's directory.  This file follows them once.

## What is here

* `NameRule` says what is to be true of the names, of the `file_info`s and of the packets.
  `NameRule.Named`, `Served`, `Returns`, `Says` and `Hears` spread it over the operations of the
  file handler and the datagrams.
* `handlerCode` and `clientCode` are the rule as codes of conduct for the two programs
  (`Session/Conduct.lean`).
* The lemmas `obeys_*` go through the statements of the programs, from the small functions up to
  `RequestHandler.obeys_handleRequest` and the programs of the client's commands.
* `RequestHandler.sound_handlerCode` and `Client.sound_clientCode`: both programs obey every rule,
  if only the file handlers do not return anything against it.
* `NameRule.kept_in_session`: in a session that begins with names of the rule, nothing against the
  rule is ever sent.

`Fitting.lean` and `Confinement.lean` are the two rules that this is used for.
-/

set_option autoImplicit false

namespace Bropdox

open FileSystem Session Program SocketHandler Peers

open Relation (ReflTransGen)

/-- A rule about names, and what is sent along with them. -/
structure NameRule where
  /-- The names that the client's file handler is given. -/
  name : Name → Prop
  /-- The names by which the server's file handler reads, writes and removes. -/
  served : Name → Prop
  /-- What is sent about a file. -/
  data : FileInfo → Prop
  /-- The files of events. -/
  event : FileInfo → Prop
  /-- Packets. -/
  packet : Packet → Prop
  /-- What is sent about a file tells its name. -/
  name_of_data {file : FileInfo} (h : data file) : name file.name
  /-- The name in the message is the one to read, write or remove. -/
  served_of_data {file : FileInfo} (h : data file) : served file.name
  /-- An event tells a name as well. -/
  name_of_event {file : FileInfo} (h : event file) : name file.name
  /-- A message may be about no file. -/
  data_default : data {}
  /-- An event may be about none. -/
  event_default : event {}

namespace NameRule

/-- An operation of a client is given such names. -/
def Named (r : NameRule) : FileOp → Prop
  | .writeFile f .. => r.name f
  | .readFile f => r.name f
  | .getFileInfo f => r.name f
  | .checkFreshness file => r.name file.name
  | .getFileInfoList => True
  | .deleteFile f => r.name f
  | .copyFileToSyncDir f => r.name f

/-- An operation of the server is given such names, and such packets.  The server always writes into
the sync directory, and never copies. -/
def Served (r : NameRule) : FileOp → Prop
  | .writeFile f data path => r.served f ∧ path = [] ∧ ∀ p, some p ∈ data → r.packet p
  | .readFile f => r.served f
  | .getFileInfo f => r.served f
  | .checkFreshness file => r.name file.name
  | .getFileInfoList => True
  | .deleteFile f => r.served f
  | .copyFileToSyncDir _ => False

/-- What an operation returns can be sent. -/
def Returns (r : NameRule) : (o : FileOp) → Except Exn o.Res → Prop
  | .readFile _, .ok read => ∀ p ∈ read.packets, r.packet p
  | .getFileInfo _, .ok info => r.data info
  | .getFileInfoList, .ok entries => ∀ e ∈ entries, r.data e.file
  | _, _ => True

/-- What is sent. -/
def Says (r : NameRule) : Datagram sessionWire → Prop
  | ⟨.ack, _⟩ => True
  | ⟨.packet, p⟩ => r.packet p
  | ⟨.fileData, fileData⟩ => r.data fileData.file
  | ⟨.fileEvent, event⟩ => r.event event.file
  | _ => False

/-- What is made of what is received. -/
def Hears (r : NameRule) : Datagram sessionWire → Prop
  | ⟨.fileData, fileData⟩ => r.data fileData.file
  | ⟨.fileEvent, event⟩ => r.event event.file
  | ⟨.packet, p⟩ => r.packet p
  | _ => True

/-- The rule for a request handler. -/
def handlerCode (r : NameRule) : Code sessionWire RequestHandler.sig where
  op := r.Served
  result := r.Returns
  send := r.Says
  hear := r.Hears
  call
    | .sendFile f => r.served f
    | _ => True

/-- The rule for a client, which never lists. -/
def clientCode (r : NameRule) : Code sessionWire Client.sig where
  op
    | .file .getFileInfoList => False
    | .file o => r.Named o
    | _ => True
  result
    | .file o, v => r.Returns o v
    | _, _ => True
  send := r.Says
  hear := r.Hears
  call
    | .sendFile f => r.name f
    | .receiveFiles => True

end NameRule

variable {r : NameRule} {f : Name}

/-! ## The request handler

The statements of the server's programs, one lemma for each function of the source. -/

namespace RequestHandler

theorem obeys_receiveAnnounced {fileData : FileData} (h : r.data fileData.file) :
    (receiveAnnounced fileData).Heeds r.handlerCode body := by
  rw [receiveAnnounced]
  split
  · exact follows_emit trivial (.ret _)
  · refine follows_emit trivial ?_
    simp only [receiveFile, bind_eq, bind_assoc]
    refine follows_awaitAll fun slots hslots ↦ ?_
    split
    · rw [bind_assoc]
      refine follows_run (P := sig) ⟨r.served_of_data h, rfl, hslots⟩ fun write _ ↦ ?_
      exact follows_emit trivial (.ret _)
    · exact follows_emit trivial (.ret _)

theorem obeys_deleteFile (hf : r.served f) : (deleteFile f).Heeds r.handlerCode body := by
  refine follows_run (P := sig) hf fun deleted _ ↦ ?_
  split
  · exact .send trivial (.ret _)
  · exact .send trivial (.ret _)

theorem obeys_receiveEvent {event : FileEvent} (h : r.event event.file) :
    (receiveEvent event).Heeds r.handlerCode body := by
  have hupload : Program.Heeds r.handlerCode body (do
      let fresh ← RequestHandler.file (.checkFreshness event.file)
      sendPacket .ack ⟨fresh⟩
      if !fresh then pure ()
      else
        let fileData ← waitFor .fileData
        discard (receiveAnnounced fileData) : Prog Unit) := by
    refine follows_run (P := sig) (r.name_of_event h) fun fresh _ ↦ follows_emit trivial ?_
    split
    · exact .ret _
    · refine follows_waitFor fun fileData hdata ↦ ?_
      exact follows_bind (obeys_receiveAnnounced hdata) fun _ ↦ .ret _
  rw [receiveEvent]
  split
  · exact hupload
  · exact hupload
  · exact follows_emit trivial (follows_waitFor fun fileData hdata ↦
      obeys_deleteFile (r.served_of_data hdata))
  · exact .ret _

theorem obeys_receiveEvents : receiveEvents.Heeds r.handlerCode body := by
  refine follows_waitFor fun event hdata ↦ ?_
  split
  · exact .ret _
  · exact follows_bind (obeys_receiveEvent hdata) fun _ ↦ .call trivial fun _ ↦ .ret _

theorem obeys_sendFile (hf : r.served f) :
    (sendFile f).Heeds r.handlerCode body := by
  refine follows_attempt (P := sig) hf fun read hread ↦ ?_
  split
  · exact .send r.data_default (.ret _)
  · exact .throw _
  · refine follows_run (P := sig) hf fun info hinfo ↦ follows_emit hinfo ?_
    refine follows_sendPackets hread (follows_waitFor fun ack _ ↦ ?_)
    rw [resendUnless]
    split
    · exact .call hf fun _ ↦ .ret _
    · exact .ret _

theorem obeys_listFiles : listFiles.Heeds r.handlerCode body := by
  refine follows_run (P := sig) trivial fun entries hentries ↦ ?_
  refine follows_emit r.data_default ?_
  refine follows_sendPackets hentries (follows_waitFor fun ack _ ↦ ?_)
  rw [relistUnless]
  split
  · exact .call trivial fun _ ↦ .ret _
  · exact .ret _

theorem obeys_offerFiles {entries : List FileData} (h : ∀ e ∈ entries, r.data e.file) :
    (offerFiles entries).Heeds r.handlerCode body := by
  induction entries with
  | nil => exact .ret _
  | cons fileInfo entries ih =>
    obtain ⟨hfile, hentries⟩ := List.forall_mem_cons.mp h
    refine follows_emit hfile (follows_await fun ack _ ↦ ?_)
    simp only
    split
    · exact ih hentries
    · refine follows_bind (follows_await fun _ _ ↦ .ret _) fun _ ↦ ?_
      exact .call (r.served_of_data hfile) fun _ ↦ ih hentries

theorem obeys_syncServer : syncServer.Heeds r.handlerCode body := by
  refine follows_invoke trivial fun _ ↦ follows_run (P := sig) trivial fun entries hentries ↦ ?_
  refine follows_bind (obeys_offerFiles hentries) fun _ ↦ follows_emit r.data_default ?_
  exact follows_await fun _ _ ↦ .ret _

/-- **The request handler.** -/
theorem obeys_handleRequest (req : Req) : (handleRequest req).Heeds r.handlerCode body := by
  cases req with
  | sync => exact follows_bind obeys_syncServer fun _ ↦ .ret _
  | send =>
    refine follows_waitFor fun fileData hdata ↦ ?_
    exact follows_bind (obeys_sendFile (r.served_of_data hdata)) fun _ ↦ .ret _
  | receive => exact follows_waitFor fun fileData hdata ↦ obeys_receiveAnnounced hdata
  | del =>
    exact follows_waitFor fun fileData hdata ↦
      follows_bind (obeys_deleteFile (r.served_of_data hdata)) fun _ ↦ .ret _
  | list =>
    exact follows_bind (follows_await fun _ _ ↦ .ret _) fun _ ↦
      follows_bind obeys_listFiles fun _ ↦ .ret _
  | _ => exact .ret _

/-- **The request handler obeys every rule**, if its file handler does. -/
theorem sound_handlerCode {I : FileHost → Prop} (hI : ∀ o h v s, r.handlerCode.op o → I h →
    o.exec h = .ok (v, s) → r.Returns o (.ok v) ∧ I s) : r.handlerCode.Sound body I where
  ok o h v s ho hh hx := hI o h v s ho hh hx
  error o h e _ _ _ := by cases o <;> trivial
  bodies l hl := by
    cases l with
    | receiveEvents => exact obeys_receiveEvents
    | sendFile f => exact obeys_sendFile hl
    | listFiles => exact obeys_listFiles

end RequestHandler

/-! ## The client

The statements of the client's programs.  A client never lists its own files, so its code leaves
this out. -/

namespace Client

theorem obeys_waitAck : waitAck.Heeds r.clientCode body := by
  rw [waitAck, bind_eq]
  exact follows_await fun m _ ↦ .ret _

theorem obeys_resetUnlessSyncing : resetUnlessSyncing.Heeds r.clientCode body := by
  refine follows_run (P := sig) trivial fun syncing _ ↦ ?_
  split
  · exact .close (.ret _)
  · exact .ret _

theorem obeys_keepUnlessSyncing (hf : r.name f) :
    (keepUnlessSyncing f).Heeds r.clientCode body := by
  refine follows_run (P := sig) trivial fun syncing _ ↦ ?_
  split
  · refine follows_bind ?_ fun _ ↦ .close (.ret _)
    exact follows_run (P := sig) hf fun _ _ ↦ .ret _
  · exact .ret _

theorem obeys_sendFile (hf : r.name f) :
    (sendFile f).Heeds r.clientCode body := by
  refine follows_run (P := sig) hf fun read hread ↦ ?_
  refine follows_run (P := sig) hf fun info hinfo ↦ follows_emit hinfo ?_
  refine follows_bind obeys_waitAck fun accepted ↦ ?_
  split
  · exact .ret _
  · have hkept : ((keepUnlessSyncing f).bind fun _ ↦ .ret true).Heeds r.clientCode body :=
      follows_bind (obeys_keepUnlessSyncing hf) fun _ ↦ .ret _
    refine follows_sendPackets hread (follows_bind obeys_waitAck fun stored ↦ ?_)
    simp only
    split
    · exact follows_invoke hf fun _ ↦ hkept
    · exact hkept

theorem obeys_getFile (hf : r.name f) (path : Name) :
    (getFile f path).Heeds r.clientCode body := by
  refine follows_run (P := sig) hf fun info hinfo ↦ follows_emit hinfo ?_
  refine follows_await fun fileData _ ↦ ?_
  simp only [expect_some, ret_bind, bind_eq]
  split
  · exact follows_bind obeys_resetUnlessSyncing fun _ ↦ .ret _
  · have hreset : (resetUnlessSyncing.bind fun _ ↦ .ret true).Heeds r.clientCode body :=
      follows_bind obeys_resetUnlessSyncing fun _ ↦ .ret _
    refine follows_awaitAll fun recvFile _ ↦ ?_
    split
    · refine follows_emit trivial (follows_bind ?_ fun _ ↦ hreset)
      exact follows_run (P := sig) hf fun _ _ ↦ .ret _
    · exact follows_emit trivial hreset

theorem obeys_deleteFile (hf : r.name f) :
    (deleteFile f).Heeds r.clientCode body := by
  refine follows_run (P := sig) hf fun info hinfo ↦ follows_emit hinfo ?_
  have hgone : ∀ gone : Bool, Program.Heeds r.clientCode body
      (if !gone then .ret false else waitAck.bind fun deleted ↦
        resetUnlessSyncing.bind fun _ ↦ .ret deleted : Prog Bool) := by
    intro gone
    split
    · exact .ret _
    · exact follows_bind obeys_waitAck fun deleted ↦
        follows_bind obeys_resetUnlessSyncing fun _ ↦ .ret _
  refine follows_run (P := sig) trivial fun syncing _ ↦ ?_
  simp only
  split
  · exact follows_run (P := sig) hf fun gone _ ↦ hgone gone
  · exact hgone true

theorem obeys_listServerFiles : listServerFiles.Heeds r.clientCode body := by
  refine follows_emit trivial (follows_await fun fileData _ ↦ ?_)
  simp only [receiveList, expect_some, ret_bind, bind_eq]
  split
  · exact follows_emit trivial (.ret _)
  · have hreset : (resetUnlessSyncing.bind fun _ ↦ .ret true).Heeds r.clientCode body :=
      follows_bind obeys_resetUnlessSyncing fun _ ↦ .ret _
    refine follows_awaitAll fun received _ ↦ ?_
    split
    · exact follows_emit trivial hreset
    · exact follows_emit trivial hreset

theorem obeys_sendEvent {event : FileEvent} (h : r.event event.file) :
    (sendEvent event).Heeds r.clientCode body := by
  have hf := r.name_of_event h
  refine follows_emit h (follows_bind obeys_waitAck fun wanted ↦ ?_)
  split
  · exact .ret _
  · split
    · exact follows_invoke hf fun _ ↦ .ret _
    · exact follows_invoke hf fun _ ↦ .ret _
    · exact follows_bind (obeys_deleteFile hf) fun _ ↦ .ret _
    · exact .ret _

theorem obeys_sendEvents {events : List FileEvent} (h : ∀ event ∈ events, r.event event.file) :
    (sendEvents events).Heeds r.clientCode body := by
  induction events with
  | nil => exact .ret _
  | cons event events ih =>
    obtain ⟨hevent, hevents⟩ := List.forall_mem_cons.mp h
    exact follows_bind (obeys_sendEvent hevent) fun _ ↦ ih hevents

theorem obeys_receiveFiles : receiveFiles.Heeds r.clientCode body := by
  refine follows_await fun finfo hdata ↦ ?_
  have hf := r.name_of_data hdata
  simp only
  split
  · refine follows_run (P := sig) hf fun fresh _ ↦ follows_emit trivial ?_
    have hagain : callReceiveFiles.Heeds r.clientCode body := .call trivial fun _ ↦ .ret _
    split
    · rw [discard_eq, bind_eq, bind_assoc]
      exact follows_bind (obeys_getFile hf []) fun _ ↦ hagain
    · exact hagain
  · exact .ret _

theorem obeys_syncClient {events : List FileEvent} (h : ∀ event ∈ events, r.event event.file) :
    (syncClient events).Heeds r.clientCode body := by
  refine follows_run (P := sig) trivial fun _ _ ↦ follows_bind (obeys_sendEvents h) fun _ ↦ ?_
  refine follows_emit r.event_default (follows_invoke trivial fun _ ↦ follows_emit trivial ?_)
  exact follows_run (P := sig) trivial fun _ _ ↦ .ret _

/-- **The client obeys every rule**, if its file handler does. -/
theorem sound_clientCode {I : FileHost → Prop} (hI : ∀ o h v s, r.clientCode.op (.file o) → I h →
    o.exec h = .ok (v, s) → r.Returns o (.ok v) ∧ I s) :
    r.clientCode.Sound body fun h ↦ I h.files where
  ok o h v h' ho hh hx := by
    cases o with
    | file o =>
      obtain ⟨s, hs, rfl⟩ := Op.of_exec_file hx
      exact hI o _ v s ho hh hs
    | isSyncing =>
      cases hx
      exact ⟨trivial, hh⟩
    | setSyncing b =>
      cases hx
      exact ⟨trivial, hh⟩
  error o h e _ _ _ := by
    cases o with
    | file o => cases o <;> trivial
    | _ => trivial
  bodies l hl := by
    cases l with
    | receiveFiles => exact obeys_receiveFiles
    | sendFile f => exact obeys_sendFile hl

end Client

/-! ## Sessions

A session of two programs that obey the rule, from its first handshake to its end. -/

/-- The names of a command, or the events of a synchronisation, are such as the rule wants. -/
def Deed.Named (r : NameRule) : Deed → Prop
  | command (.upload file) => r.name file
  | command (.download file _) => r.name file
  | command (.delete file) => r.name file
  | command .ls => True
  | sync events => ∀ event ∈ events, r.event event.file

theorem Deed.Named.obeys {deed : Deed} (h : deed.Named r) :
    deed.program.Heeds r.clientCode Client.body := by
  cases deed with
  | command cmd =>
    cases cmd with
    | upload file => exact Client.obeys_sendFile h
    | download file path => exact Client.obeys_getFile h path
    | delete file => exact Client.obeys_deleteFile h
    | ls => exact Client.obeys_listServerFiles
  | sync events => exact Client.obeys_syncClient h

namespace NameRule

theorem Says.hears {d : Datagram sessionWire} (h : r.Says d) : r.Hears d := by
  obtain ⟨κ, m⟩ := d
  cases κ <;> first | exact h | trivial

/-- A session in which nothing is said against a rule. -/
structure Kept (r : NameRule) (I J : FileHost → Prop) (x : PeerPair Bool Bool) : Prop where
  /-- What is in flight. -/
  unread : x.Unread r.Says
  /-- What the client will do. -/
  left : x.left.prog.Heeds r.clientCode Client.body
  /-- What the request handler will do. -/
  right : x.right.prog.Heeds r.handlerCode RequestHandler.body
  /-- The client's files. -/
  client : I x.left.host.files
  /-- The server's files. -/
  server : J x.right.host

/-- **No session breaks a rule** that it begins with. -/
theorem kept_in_session {I J : FileHost → Prop}
    (hI : ∀ o h v s, r.clientCode.op (.file o) → I h → o.exec h = .ok (v, s) →
      r.Returns o (.ok v) ∧ I s)
    (hJ : ∀ o h v s, r.handlerCode.op o → J h → o.exec h = .ok (v, s) →
      r.Returns o (.ok v) ∧ J s) {x y : PeerPair Bool Bool} (hx : r.Kept I J x)
    (hy : ReflTransGen (Pair.Step peers) x y) : r.Kept I J y := by
  have hstart : Pair.Conducted (fun e ↦ e.prog.Heeds r.clientCode Client.body ∧ I e.host.files)
      (fun e ↦ e.prog.Heeds r.handlerCode RequestHandler.body ∧ J e.host) r.Says r.Says x :=
    ⟨⟨hx.left, hx.client⟩, ⟨hx.right, hx.server⟩, hx.unread.1, hx.unread.2⟩
  have hcond := Pair.conducted ?_ ?_ (fun _ _ _ _ _ (hd : False) _ ↦ hd) hstart hy
  · obtain ⟨hleft, hright, htoLeft, htoRight⟩ := hcond.resolve_left id
    exact ⟨⟨htoLeft, htoRight⟩, hleft.1, hright.1, hleft.2, hright.2⟩
  · rintro e i e' i' out ⟨hp, hh⟩ hi hs
    obtain ⟨hp', hh', hout⟩ := (Endpoint.follows_step (Client.sound_clientCode hI) hp hh
      (fun p hp ↦ (hi p hp).hears) hs).resolve_left id
    exact ⟨⟨hp', hh'⟩, hout⟩
  · rintro e i e' i' out ⟨hp, hh⟩ hi hs
    obtain ⟨hp', hh', hout⟩ := (Endpoint.follows_step (RequestHandler.sound_handlerCode hJ) hp hh
      (fun p hp ↦ (hi p hp).hears) hs).resolve_left id
    exact .inr ⟨⟨hp', hh'⟩, hout⟩

/-- The rule is kept at the beginning of a session, if the deed has such names. -/
theorem kept_start {I J : FileHost → Prop} {h : Client.Host} {h' : FileHost} {deed : Deed}
    (hh : I h.files) (hh' : J h') (hdeed : deed.Named r) : r.Kept I J
      ⟨⟨h, deed.program⟩, ⟨h', RequestHandler.handleRequest deed.req⟩, some [], some [], [], []⟩ :=
  ⟨⟨List.forall_mem_nil _, List.forall_mem_nil _⟩, hdeed.obeys,
    RequestHandler.obeys_handleRequest _, hh, hh'⟩

end NameRule
end Bropdox
