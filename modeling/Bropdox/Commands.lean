import Bropdox.FlatHost
import Bropdox.Transfer

/-!
# One command after another

A client gives its commands one at a time, over a socket that some of them close and some of them
keep, to a server that always keeps its own.  What one command leaves unread, the next one reads.

## What is here

* `Command` is the commands that talk to the request handler, `Desk` what there is between two of
  them, and `Desk.Step` a command that has been carried out.  A desk is `Tidy` when nothing is
  unread on a socket that stays in use.
* `Command.CountsRight` and `Command.Harmless` are the two conditions on a command: its `read_file`,
  if there is one, counts the packets right; and it is neither the deletion of a file that the
  client itself does not have nor the listing of a multiple of `2 ^ 32` files.
* `EndsTidy` says of a session that it comes to an end in which no datagram was misread, and that
  the desk is tidy again if both sides have returned.
* There is one lemma for each command (`upload_endsTidy`, `download_endsTidy`, `ls_endsTidy`,
  `delete_endsTidy`), whatever the two disks hold and whatever goes wrong with a file, and
  `Desk.Tidy.endsTidy` has them all.
* `commands_tidy`: whenever a harmless command is over nothing is unread on a socket that stays in
  use, and during the next one no datagram is misread.
* `delete_missing_leaks` is the deletion of a file that nobody has, after which `ls` takes the
  unread answer for the list of files.
-/

set_option autoImplicit false

namespace Bropdox

open FileSystem Session Program SocketHandler Peers

open Relation (ReflTransGen)

/-- The commands that talk to the request handler. -/
inductive Command
  /-- `upload` -/
  | upload (file : Name)
  /-- `download` -/
  | download (file path : Name)
  /-- `delete` -/
  | delete (file : Name)
  /-- `ls` -/
  | ls

namespace Command

/-- The request in the handshake of a command. -/
def req : Command → Req
  | upload _ => .receive
  | download .. => .send
  | delete _ => .del
  | ls => .list

/-- What the client does once the handshake has succeeded. -/
def program : Command → Client.Prog Bool
  | upload file => Client.sendFile file
  | download file path => Client.getFile file path
  | delete file => Client.deleteFile file
  | ls => Client.listServerFiles

end Command

/-- A client and its request handler between two commands. -/
structure Desk where
  /-- The client. -/
  client : Client.Host
  /-- `sock_handler_req`, which is closed after most commands. -/
  socket : Inbox sessionWire
  /-- The server. -/
  server : FileHost
  /-- The socket of the request handler. -/
  inbox : Inbox sessionWire

namespace Desk

/-- The beginning of a command; a closed socket is replaced by a new one. -/
def start (d : Desk) (cmd : Command) : PeerPair Bool Bool where
  left := ⟨d.client, cmd.program⟩
  right := ⟨d.server, RequestHandler.handleRequest cmd.req⟩
  toLeft := some (d.socket.getD [])
  toRight := d.inbox

/-- What is left when a command is over. -/
def after (y : PeerPair Bool Bool) : Desk := ⟨y.left.host, y.toLeft, y.right.host, y.toRight⟩

/-- A command has been carried out: both sides have returned. -/
def Step (cmd : Command) (d d' : Desk) : Prop :=
  ∃ y a b, ReflTransGen (Pair.Step peers) (d.start cmd) y ∧ y.Returned a b ∧ d' = after y

/-- Nothing is unread on a socket that stays in use, and no synchronisation is running. -/
structure Tidy (d : Desk) : Prop where
  /-- The client has closed its socket or read everything. -/
  socket : d.socket = none ∨ d.socket = some []
  /-- The server has read everything. -/
  inbox : d.inbox = some []
  /-- No synchronisation is running. -/
  idle : d.client.syncing = false

end Desk

/-- The packet count of what was read is positive, and it is the number of packets. -/
structure ReadResult.Counted (read : ReadResult) : Prop where
  /-- The count is positive. -/
  pos : UInt32.ofNat read.fileSizeInPackets ≠ 0
  /-- The announced count is the number of packets. -/
  eq_length : (UInt32.ofNat read.fileSizeInPackets).toNat = read.packets.length

/-- The `read_file` of this command, if there is one, counts right. -/
def Command.CountsRight (d : Desk) : Command → Prop
  | upload file => ∀ read, d.client.files.readFile file = .ok read → read.Counted
  | download file _ => ∀ info read, d.client.files.getFileInfo file = .ok info →
      d.server.readFile info.name = .ok read → read.Counted
  | _ => True

/-- The command is not one of those that leave something behind: a file to be deleted is one the
client has, and the number of files that are listed does not wrap to zero. -/
def Command.Harmless (d : Desk) : Command → Prop
  | delete file => d.client.files.machine.exists (d.client.files.syncDir ++ file) = true
  | ls => ∀ entries, d.server.getFileInfoList = .ok entries →
      UInt32.ofNat entries.length = 0 → entries = []
  | _ => True

/-! ## One command

Each command at a tidy desk, followed to its end on every path that it can take. -/

/-- The session comes to an end without misreading a datagram, and tidily if both sides return. -/
def EndsTidy (x : PeerPair Bool Bool) : Prop :=
  ∃ t, x.EndsIn peers t ∧ ¬ t.Confused ∧ ∀ a b, t.Returned a b → (Desk.after t).Tidy

section Ends

variable {x t : PeerPair Bool Bool}

/-- An endpoint that waits for nothing, or has nothing to read, is not confused. -/
theorem not_confused_of {P : Sig} {α : Type} {e : Endpoint sessionWire P α} {i : Inbox sessionWire}
    (h : i = some [] ∨ ∀ κ k, e.prog ≠ .wait κ k) : ¬ e.Confused i := by
  rintro ⟨κ, k, a, d, rest, hp, hi, -⟩
  rcases h with h | h
  · rw [h] at hi
    cases hi
  · exact h κ k hp

/-- An end in which both sides have returned. -/
theorem EndsTidy.of_returned (h : x.EndsIn peers t) {a b : Bool} (hret : t.Returned a b)
    (htidy : (Desk.after t).Tidy) : EndsTidy x :=
  ⟨t, h, hret.not_confused, fun _ _ _ ↦ htidy⟩

/-- An end in which the client's program is over, but not by returning. -/
theorem EndsTidy.of_left (h : x.EndsIn peers t) {e : Exn} (hleft : t.left.prog = .throw e)
    (hright : t.toRight = some [] ∨ ∀ κ k, t.right.prog ≠ .wait κ k) : EndsTidy x := by
  refine ⟨t, h, ?_, fun a b hret ↦ ?_⟩
  · rintro (hc | hc)
    · exact not_confused_of (.inr fun κ k hp ↦ by rw [hleft] at hp; cases hp) hc
    · exact not_confused_of hright hc
  · have hl := hret.1
    rw [hleft] at hl
    cases hl

/-- An end in which an exception has escaped on the server, and the client waits. -/
theorem EndsTidy.of_right (h : x.EndsIn peers t) {e : Exn} (hright : t.right.prog = .throw e)
    (hleft : t.toLeft = some []) : EndsTidy x := by
  refine ⟨t, h, ?_, fun a b hret ↦ ?_⟩
  · rintro (hc | hc)
    · exact not_confused_of (.inl hleft) hc
    · exact not_confused_of (.inr fun κ k hp ↦ by rw [hright] at hp; cases hp) hc
  · have hr := hret.2
    rw [hright] at hr
    cases hr

end Ends

section Commands

variable {h : Client.Host} {h' : FileHost} {file path : Name}

/-- The beginning of a command at a tidy desk. -/
theorem Desk.Tidy.start_eq {d : Desk} (hd : d.Tidy) (cmd : Command) :
    d.start cmd = ⟨⟨d.client, cmd.program⟩, ⟨d.server, RequestHandler.handleRequest cmd.req⟩,
      some [], some [], [], []⟩ := by
  rw [Desk.start, hd.inbox]
  rcases hd.socket with hs | hs <;> rw [hs] <;> rfl

/-- An operation of the client fails before it has sent anything. -/
theorem endsTidy_of_throw {e : Exn} {p : Client.Prog Bool} {q : RequestHandler.Prog Bool}
    (hx : ∀ t, Pair.EndsIn peers ⟨⟨h, p⟩, ⟨h', q⟩, some [], some [], [], []⟩ t ↔
      Pair.EndsIn peers ⟨⟨h, .throw e⟩, ⟨h', q⟩, some [], some [], [], []⟩ t)
    (hwait : Endpoint.step typed RequestHandler.body ⟨h', q⟩ (some []) = none) :
    EndsTidy ⟨⟨h, p⟩, ⟨h', q⟩, some [], some [], [], []⟩ :=
  .of_left ((hx _).mpr ⟨.refl, Pair.terminal_of_stuck (Endpoint.step_throw ..) hwait⟩) rfl
    (.inl rfl)

/-- An upload that counts right. -/
theorem upload_endsIn (hidle : h.syncing = false) {read : ReadResult} {info : FileInfo}
    (hread : h.files.readFile file = .ok read) (hinfo : h.files.getFileInfo file = .ok info)
    (hcount : read.Counted) (t : PeerPair Bool Bool) :
    Pair.EndsIn peers ⟨⟨h, Client.sendFile file⟩, ⟨h', RequestHandler.handleRequest .receive⟩,
        some [], some [], [], []⟩ t ↔
      Pair.EndsIn peers ⟨⟨keptAfter h file, .ret true⟩,
        ⟨h'.store info.name [] read.packets, .ret true⟩, none, some [], [], []⟩ t := by
  rw [← bind_ret (Client.sendFile file), handleRequest_receive,
    upload_stored hread hinfo hcount.pos hcount.eq_length le_rfl, left_keepUnlessSyncing]
  simp [socketAfter, hidle]

theorem upload_endsTidy (hidle : h.syncing = false)
    (hcount : ∀ read, h.files.readFile file = .ok read → read.Counted) :
    EndsTidy ⟨⟨h, Client.sendFile file⟩, ⟨h', RequestHandler.handleRequest .receive⟩,
      some [], some [], [], []⟩ := by
  cases hread : h.files.readFile file with
  | error e =>
    refine endsTidy_of_throw (e := e) (fun t ↦ ?_) rfl
    rw [Client.sendFile, bind_eq, left_file_error (FileOp.exec_readFile_error hread)]
  | ok read =>
    cases hinfo : h.files.getFileInfo file with
    | error e =>
      refine endsTidy_of_throw (e := e) (fun t ↦ ?_) rfl
      rw [Client.sendFile, bind_eq, left_query (FileOp.exec_readFile hread), bind_eq,
        left_file_error (FileOp.exec_getFileInfo_error hinfo)]
    | ok info =>
      exact .of_returned ((upload_endsIn hidle hread hinfo (hcount read hread) _).mpr
        ⟨.refl, Pair.Returned.terminal ⟨rfl, rfl⟩⟩) ⟨rfl, rfl⟩
        ⟨.inl rfl, rfl, (keptAfter_syncing h file).trans hidle⟩

theorem download_endsTidy (hidle : h.syncing = false)
    (hcount : ∀ info read, h.files.getFileInfo file = .ok info →
      h'.readFile info.name = .ok read → read.Counted) :
    EndsTidy ⟨⟨h, Client.getFile file path⟩, ⟨h', RequestHandler.handleRequest .send⟩,
      some [], some [], [], []⟩ := by
  cases hinfo : h.files.getFileInfo file with
  | error e =>
    refine endsTidy_of_throw (e := e) (fun t ↦ ?_) rfl
    rw [Client.getFile, bind_eq, left_file_error (FileOp.exec_getFileInfo_error hinfo)]
  | ok info =>
    have hask : ∀ t, Pair.EndsIn peers ⟨⟨h, Client.getFile file path⟩,
        ⟨h', RequestHandler.handleRequest .send⟩, some [], some [], [], []⟩ t ↔
        Pair.EndsIn peers ⟨⟨h, (Client.receiveRequested file path).bind .ret⟩,
          ⟨h', (RequestHandler.sendFile info.name).bind fun _ ↦ .ret true⟩,
          some [], some [], [], []⟩ t := by
      intro t
      rw [Client.getFile, RequestHandler.handleRequest, bind_ret]
      exact request_endsIn hinfo
    cases hread : h'.readFile info.name with
    | error e =>
      by_cases he : e = .fileDoesNotExist
      · -- the client is told that there is no such file
        subst he
        have hend := fun t ↦ (hask t).trans (download_absent hread)
        simp only [left_resetUnlessSyncing, socketAfter, hidle, Bool.false_eq_true,
          if_false] at hend
        exact .of_returned ((hend _).mpr ⟨.refl, Pair.Returned.terminal ⟨rfl, rfl⟩⟩) ⟨rfl, rfl⟩
          ⟨.inl rfl, rfl, hidle⟩
      · exact .of_right ((hask _).mpr ((download_unreadable hread he).mpr
          ⟨.refl, Pair.terminal_of_stuck rfl (Endpoint.step_throw ..)⟩)) rfl rfl
    | ok read =>
      cases hinfo' : h'.getFileInfo info.name with
      | error e =>
        exact .of_right ((hask _).mpr ((download_undescribed hread hinfo').mpr
          ⟨.refl, Pair.terminal_of_stuck rfl (Endpoint.step_throw ..)⟩)) rfl rfl
      | ok info' =>
        have hc := hcount info read hinfo hread
        have hend := fun t ↦ (hask t).trans
          (download_stored hread hinfo' hc.pos hc.eq_length le_rfl)
        simp only [left_resetUnlessSyncing, socketAfter, hidle, Bool.false_eq_true,
          if_false] at hend
        exact .of_returned ((hend _).mpr ⟨.refl, Pair.Returned.terminal ⟨rfl, rfl⟩⟩) ⟨rfl, rfl⟩
          ⟨.inl rfl, rfl, rfl⟩

/-- The server's answer to the request of a deletion. -/
theorem deleted_endsIn {name : Name} {b : Bool} {s : FileHost}
    (hdel : h'.deleteFile name = .ok (b, s)) {l : Endpoint sessionWire Client.sig Bool}
    {k' : Unit → RequestHandler.Prog Bool} (t : PeerPair Bool Bool) :
    Pair.EndsIn peers ⟨l, ⟨h', (RequestHandler.deleteFile name).bind k'⟩, some [], some [],
        [], []⟩ t ↔
      Pair.EndsIn peers ⟨l, ⟨s, k' ()⟩, some [parcel .ack ⟨b⟩], some [], [], []⟩ t := by
  simp only [RequestHandler.deleteFile, bind_eq, bind_assoc]
  rw [right_file (o := .deleteFile name) hdel]
  cases b <;> simp

theorem undeleted_endsIn {name : Name} {e : Exn} (hdel : h'.deleteFile name = .error e)
    {l : Endpoint sessionWire Client.sig Bool} {k' : Unit → RequestHandler.Prog Bool}
    (t : PeerPair Bool Bool) :
    Pair.EndsIn peers ⟨l, ⟨h', (RequestHandler.deleteFile name).bind k'⟩, some [], some [],
        [], []⟩ t ↔
      Pair.EndsIn peers ⟨l, ⟨h', .throw e⟩, some [], some [], [], []⟩ t := by
  simp only [RequestHandler.deleteFile, bind_eq, bind_assoc]
  rw [right_file_error (o := .deleteFile name) hdel]

/-- The request of a deletion: the client tells the server the name and deletes its own file. -/
theorem delete_asked (hidle : h.syncing = false) {info : FileInfo}
    (hinfo : h.files.getFileInfo file = .ok info) (t : PeerPair Bool Bool) :
    Pair.EndsIn peers ⟨⟨h, Client.deleteFile file⟩, ⟨h', RequestHandler.handleRequest .del⟩,
        some [], some [], [], []⟩ t ↔
      Pair.EndsIn peers ⟨⟨h, (Client.file (.deleteFile file)).bind fun gone ↦
          if !gone then .ret false
          else Client.waitAck.bind fun deleted ↦
            Client.resetUnlessSyncing.bind fun _ ↦ .ret deleted⟩,
        ⟨h', (RequestHandler.deleteFile info.name).bind fun _ ↦ .ret true⟩,
        some [], some [], [], []⟩ t := by
  rw [Client.deleteFile, RequestHandler.handleRequest]
  refine (request_endsIn hinfo).trans ?_
  simp [hidle]

/-- The client has deleted its own file, and waits for the answer. -/
theorem deleteHere_endsTidy (hidle : h.syncing = false) {info : FileInfo}
    (hinfo : h.files.getFileInfo file = .ok info) {s : FileHost}
    (hgone : h.files.deleteFile file = .ok (true, s)) :
    EndsTidy ⟨⟨h, Client.deleteFile file⟩, ⟨h', RequestHandler.handleRequest .del⟩,
      some [], some [], [], []⟩ := by
  have hwait : ∀ t, Pair.EndsIn peers ⟨⟨h, Client.deleteFile file⟩,
      ⟨h', RequestHandler.handleRequest .del⟩, some [], some [], [], []⟩ t ↔
      Pair.EndsIn peers ⟨⟨{ h with files := s }, Client.waitAck.bind fun deleted ↦
          Client.resetUnlessSyncing.bind fun _ ↦ .ret deleted⟩,
        ⟨h', (RequestHandler.deleteFile info.name).bind fun _ ↦ .ret true⟩,
        some [], some [], [], []⟩ t := by
    intro t
    rw [delete_asked hidle hinfo, left_file (o := .deleteFile file) hgone]
    rfl
  cases hdel : h'.deleteFile info.name with
  | error e =>
    exact .of_right (((hwait _).trans (undeleted_endsIn hdel _)).mpr
      ⟨.refl, Pair.terminal_of_stuck rfl (Endpoint.step_throw ..)⟩) rfl rfl
  | ok r =>
    have hend := fun t ↦ (hwait t).trans (deleted_endsIn hdel t)
    simp only [Client.waitAck, bind_eq, Program.bind_assoc, left_wait, expect_some, ret_bind,
      pure_eq, left_resetUnlessSyncing, socketAfter, hidle, Bool.false_eq_true, if_false] at hend
    exact .of_returned ((hend _).mpr ⟨.refl, Pair.Returned.terminal ⟨rfl, rfl⟩⟩) ⟨rfl, rfl⟩
      ⟨.inl rfl, rfl, rfl⟩

/-- The client cannot delete its own file, and an exception escapes. -/
theorem deleteThrown_endsTidy (hidle : h.syncing = false) {info : FileInfo}
    (hinfo : h.files.getFileInfo file = .ok info) {e : Exn}
    (hgone : h.files.deleteFile file = .error e) :
    EndsTidy ⟨⟨h, Client.deleteFile file⟩, ⟨h', RequestHandler.handleRequest .del⟩,
      some [], some [], [], []⟩ := by
  have hthrow : ∀ t, Pair.EndsIn peers ⟨⟨h, Client.deleteFile file⟩,
      ⟨h', RequestHandler.handleRequest .del⟩, some [], some [], [], []⟩ t ↔
      Pair.EndsIn peers ⟨⟨h, .throw e⟩,
        ⟨h', (RequestHandler.deleteFile info.name).bind fun _ ↦ .ret true⟩,
        some [], some [], [], []⟩ t := by
    intro t
    rw [delete_asked hidle hinfo, left_file_error (o := .deleteFile file) hgone]
  cases hdel : h'.deleteFile info.name with
  | error e =>
    exact .of_left (((hthrow _).trans (undeleted_endsIn hdel _)).mpr
      ⟨.refl, Pair.terminal_of_stuck (Endpoint.step_throw ..) (Endpoint.step_throw ..)⟩) rfl
      (.inl rfl)
  | ok r =>
    exact .of_left (((hthrow _).trans (deleted_endsIn hdel _)).mpr
      ⟨.refl, Pair.terminal_of_stuck (Endpoint.step_throw ..) (Endpoint.step_ret ..)⟩) rfl
      (.inl rfl)

/-- The deletion of a file that the client has itself. -/
theorem delete_endsTidy (hidle : h.syncing = false)
    (hex : h.files.machine.exists (h.files.syncDir ++ file) = true) :
    EndsTidy ⟨⟨h, Client.deleteFile file⟩, ⟨h', RequestHandler.handleRequest .del⟩,
      some [], some [], [], []⟩ := by
  cases hinfo : h.files.getFileInfo file with
  | error e =>
    refine endsTidy_of_throw (e := e) (fun t ↦ ?_) rfl
    rw [Client.deleteFile, bind_eq, left_file_error (FileOp.exec_getFileInfo_error hinfo)]
  | ok info =>
    rcases FileHost.deleteFile_of_exists hex with ⟨s, hgone⟩ | hgone
    · exact deleteHere_endsTidy hidle hinfo hgone
    · exact deleteThrown_endsTidy hidle hinfo hgone

/-- The deletion of a file the client does not have: the server's answer is never read. -/
theorem deleteMissing_endsIn {info : FileInfo} {b : Bool} {s : FileHost} (hidle : h.syncing = false)
    (hmissing : h.files.machine.exists (h.files.syncDir ++ file) = false)
    (hinfo : h.files.getFileInfo file = .ok info) (hdel : h'.deleteFile info.name = .ok (b, s))
    (t : PeerPair Bool Bool) :
    Pair.EndsIn peers ⟨⟨h, Client.deleteFile file⟩, ⟨h', RequestHandler.handleRequest .del⟩,
        some [], some [], [], []⟩ t ↔
      Pair.EndsIn peers ⟨⟨h, .ret false⟩, ⟨s, .ret true⟩, some [parcel .ack ⟨b⟩], some [],
        [], []⟩ t := by
  have hgone : h.files.deleteFile file = .ok (false, h.files) := by
    rw [FileHost.deleteFile, hmissing]
    rfl
  rw [delete_asked hidle hinfo, left_file (o := .deleteFile file) hgone]
  exact deleted_endsIn hdel t

theorem ls_endsTidy (hidle : h.syncing = false)
    (hwrap : ∀ entries, h'.getFileInfoList = .ok entries →
      UInt32.ofNat entries.length = 0 → entries = []) :
    EndsTidy ⟨⟨h, Client.listServerFiles⟩, ⟨h', RequestHandler.handleRequest .list⟩,
      some [], some [], [], []⟩ := by
  -- the client says hello, and the server looks at its directory
  have hhello : ∀ t, Pair.EndsIn peers ⟨⟨h, Client.listServerFiles⟩,
      ⟨h', RequestHandler.handleRequest .list⟩, some [], some [], [], []⟩ t ↔
      Pair.EndsIn peers ⟨⟨h, (waitPacket .fileData).bind Client.receiveList⟩,
        ⟨h', RequestHandler.handleRequest .list⟩, some [], some [parcel .ack ⟨true⟩], [], []⟩ t :=
    fun t ↦ left_send
  cases hlist : h'.getFileInfoList with
  | error e =>
    have hend : ∀ t, Pair.EndsIn peers ⟨⟨h, Client.listServerFiles⟩,
        ⟨h', RequestHandler.handleRequest .list⟩, some [], some [], [], []⟩ t ↔
        Pair.EndsIn peers ⟨⟨h, (waitPacket .fileData).bind Client.receiveList⟩, ⟨h', .throw e⟩,
          some [], some [], [], []⟩ t := by
      intro t
      rw [hhello, RequestHandler.handleRequest, RequestHandler.listFiles]
      simp only [bind_eq, bind_assoc, discard_eq, right_wait, ret_bind]
      rw [right_file_error (FileOp.exec_getFileInfoList_error hlist)]
    exact .of_right ((hend _).mpr ⟨.refl, Pair.terminal_of_stuck rfl (Endpoint.step_throw ..)⟩)
      rfl rfl
  | ok entries =>
    have hsent := fun t ↦ (hhello t).trans (right_list hlist)
    by_cases hzero : UInt32.ofNat entries.length = 0
    · -- the client does not close its socket
      have hend := hsent
      simp only [hwrap entries hlist hzero] at hend
      simp [Client.receiveList, RequestHandler.waitFor, RequestHandler.relistUnless] at hend
      exact .of_returned ((hend _).mpr ⟨.refl, Pair.Returned.terminal ⟨rfl, rfl⟩⟩) ⟨rfl, rfl⟩
        ⟨.inr rfl, rfl, hidle⟩
    · -- the client takes as many entries as were announced, and closes its socket
      have hle := toNat_ofNat_le entries.length
      have hend : ∀ t, Pair.EndsIn peers ⟨⟨h, Client.listServerFiles⟩,
          ⟨h', RequestHandler.handleRequest .list⟩, some [], some [], [], []⟩ t ↔
          Pair.EndsIn peers ⟨⟨h, .ret true⟩, ⟨h', .ret true⟩, none, some [], [], []⟩ t := by
        intro t
        rw [hsent, left_wait]
        simp only [Client.receiveList, expect_some, bind_eq, ret_bind, if_neg hzero]
        rw [left_waitAll .fileData entries hle, countP_some, List.length_take_of_le hle, if_pos rfl]
        simp [RequestHandler.waitFor, RequestHandler.relistUnless, socketAfter, hidle]
      exact .of_returned ((hend _).mpr ⟨.refl, Pair.Returned.terminal ⟨rfl, rfl⟩⟩) ⟨rfl, rfl⟩
        ⟨.inl rfl, rfl, hidle⟩

/-- **From a tidy desk every harmless command ends tidily.** -/
theorem Desk.Tidy.endsTidy {d : Desk} (hd : d.Tidy) {cmd : Command} (hcount : cmd.CountsRight d)
    (hharm : cmd.Harmless d) : EndsTidy (d.start cmd) := by
  rw [hd.start_eq]
  cases cmd with
  | upload file => exact upload_endsTidy hd.idle hcount
  | download file path => exact download_endsTidy hd.idle hcount
  | delete file => exact delete_endsTidy hd.idle hharm
  | ls => exact ls_endsTidy hd.idle hharm

end Commands

/-! ## A sequence of commands

The induction over the commands, which carries the tidiness of the desk. -/

namespace Desk

variable {d d' : Desk} {cmd : Command}

/-- A command that has been carried out leaves a tidy desk tidy. -/
theorem Tidy.step (hd : d.Tidy) (hcount : cmd.CountsRight d) (hharm : cmd.Harmless d)
    (hs : Step cmd d d') : d'.Tidy := by
  obtain ⟨t, ht, -, htidy⟩ := hd.endsTidy hcount hharm
  obtain ⟨y, a, b, hy, hret, rfl⟩ := hs
  obtain rfl : t = y := hret.terminal.eq_of_reaches (ht.settlesIn.every y hy)
  exact htidy a b hret

/-- No datagram is misread during a command that begins at a tidy desk. -/
theorem Tidy.not_confused (hd : d.Tidy) (hcount : cmd.CountsRight d) (hharm : cmd.Harmless d)
    {y : PeerPair Bool Bool} (hy : ReflTransGen (Pair.Step peers) (d.start cmd) y) :
    ¬ y.Confused := by
  obtain ⟨t, ht, hconf, -⟩ := hd.endsTidy hcount hharm
  exact ht.settlesIn.not_confused_of hconf hy

/-- A sequence of harmless commands, each carried out before the next begins, with a `read_file`
that counts right. -/
def Run : Desk → Desk → Prop :=
  ReflTransGen fun d d' ↦ ∃ cmd : Command, cmd.CountsRight d ∧ cmd.Harmless d ∧ Step cmd d d'

end Desk

/-- **Harmless commands do not leak datagrams into each other**: whenever one of them is over
nothing is unread on a socket that stays in use, and none of them reads a datagram as something it
was not sent as. -/
theorem commands_tidy {d₀ d : Desk} (h₀ : d₀.Tidy) (hrun : Desk.Run d₀ d) :
    d.Tidy ∧ ∀ cmd : Command, cmd.CountsRight d → cmd.Harmless d → ∀ y,
      ReflTransGen (Pair.Step peers) (d.start cmd) y → ¬ y.Confused := by
  have hd : d.Tidy := by
    induction hrun with
    | refl => exact h₀
    | tail _ hs ih =>
      obtain ⟨cmd, hcount, hharm, hs⟩ := hs
      exact ih.step hcount hharm hs
  exact ⟨hd, fun cmd hcount hharm y hy ↦ hd.not_confused hcount hharm hy⟩

/-- A client that has a file `f`, and a server that has none. -/
def freshDesk : Desk where
  client :=
    ⟨.ofFiles Nat.cast ['c'] [(['f'], ⟨.threeBytes, 5⟩)] countPackets, false⟩
  socket := some []
  server := .ofFiles Nat.cast ['s'] [] countPackets
  inbox := some []

theorem freshDesk_tidy : freshDesk.Tidy := ⟨.inr rfl, rfl, rfl⟩

/-- The client's file counts right. -/
theorem freshDesk_counted (read : ReadResult)
    (hread : freshDesk.client.files.readFile ['f'] = .ok read) : read.Counted := by
  have hcount : WellCounted freshDesk.client.files .threeBytes :=
    wellCounted_of_lt rfl (by decide) (by decide)
  cases hread
  exact ⟨hcount.pos, hcount.eq_length⟩

/-- After the client has uploaded its file, it can go on with any harmless command. -/
theorem upload_then_any :
    ∃ d, Desk.Step (.upload ['f']) freshDesk d ∧ d.Tidy ∧ ∀ cmd : Command, cmd.CountsRight d →
      cmd.Harmless d → ∀ y, ReflTransGen (Pair.Step peers) (d.start cmd) y → ¬ y.Confused := by
  have hend : ∃ y, (freshDesk.start (.upload ['f'])).EndsIn peers y ∧ y.Returned true true := by
    rw [freshDesk_tidy.start_eq]
    exact ⟨_, (upload_endsIn rfl rfl rfl (freshDesk_counted _ rfl) _).mpr
      ⟨.refl, Pair.Returned.terminal ⟨rfl, rfl⟩⟩, rfl, rfl⟩
  obtain ⟨y, hy, hret⟩ := hend
  have hstep : Desk.Step (.upload ['f']) freshDesk (Desk.after y) :=
    ⟨y, true, true, hy.1, hret, rfl⟩
  exact ⟨_, hstep, commands_tidy freshDesk_tidy
    (.single ⟨.upload ['f'], freshDesk_counted, trivial, hstep⟩)⟩

/-- Deleting a file that nobody has leaves the answer of the server unread, and `ls` takes it for
the list of files. -/
theorem delete_missing_leaks :
    freshDesk.Tidy ∧ ∃ d, Desk.Step (.delete ['g']) freshDesk d ∧ ¬ d.Tidy ∧
      ∃ y, ReflTransGen (Pair.Step peers) (d.start .ls) y ∧ y.Confused := by
  have hend : (freshDesk.start (.delete ['g'])).EndsIn peers
      ⟨⟨freshDesk.client, .ret false⟩, ⟨freshDesk.server, .ret true⟩,
        some [parcel .ack ⟨false⟩], some [], [], []⟩ := by
    rw [freshDesk_tidy.start_eq]
    exact (deleteMissing_endsIn rfl rfl rfl rfl _).mpr
      ⟨.refl, Pair.Returned.terminal ⟨rfl, rfl⟩⟩
  refine ⟨freshDesk_tidy, _, ⟨_, false, true, hend.1, ⟨rfl, rfl⟩, rfl⟩, ?_, ?_⟩
  · rintro ⟨hsocket, -, -⟩
    rcases hsocket with hs | hs <;> cases hs
  · -- the client has said hello and waits for the list
    refine ⟨_, .single (.left rfl), .inl ⟨.fileData, _, _, _, _, rfl, rfl, ?_⟩⟩
    decide

end Bropdox
