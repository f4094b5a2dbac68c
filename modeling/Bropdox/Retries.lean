import Bropdox.Delivery
import Bropdox.Session.Failing

/-!
# Transfers that are tried again

In an upload, a download and a listing alike, the receiver counts what it has received and answers
with a negative acknowledgement if something is missing; the sender then begins again with the
announcement.  The receiver does not: it returns after either answer, and whatever reads from its
socket next takes the second announcement for something else.

So a script of failing receives (`Session/Failing.lean`) that makes an attempt fail strands the
sender.  This file says for each of the three transfers exactly when the receiver ends up with the
data under a script of failures.  Besides the failures it has to name what goes wrong without any: a
count that does not cover the file, and a server that announces nothing and waits for an answer.

## What is here

* `NothingLost` is the condition on the script: no receive of an announced packet fails.
* `upload_retried_iff`, `download_retried_iff` and `listing_retried_iff` are the three equivalences,
  each for every file, name, pair of hosts and script, and `transfers_retried_iff` has them side by
  side.
* Under each of them stand the parts of one session in the order of the programs: how it begins
  (`client_announces`, `server_announces`), the loop of receives that gets all it waits for or waits
  for more than there is (`receiver_waitAll`, `receiver_waitMore`), and how it ends, which is
  `stored` if nothing is lost, `stranded` if something is, `starved` if more is announced than sent,
  and `refused` if nothing is announced.
* `three_bytes_retried` and `one_failure_strands` show a file of three bytes and the list of it,
  with no failure and with one.

The sender of an upload is the client, that of a download and of a listing the server, which is why
`server_announces` and `server_retries` stand apart.
-/

set_option autoImplicit false

namespace Bropdox

open FileSystem Session Program SocketHandler Peers

/-! ## A sender and its failing receiver

What the sender sends is known before the receiver does anything, so a script decides about each
receive of the loop in turn. -/

section Rules

variable {P Q : Sig} {lossy : sessionWire.Kind → Bool} {α β : Type}
  {L : Link sessionWire P (Q.failing lossy)} {h : P.Host} {h' : Q.Host}
  {r : Endpoint sessionWire (Q.failing lossy) β} {l : Endpoint sessionWire P α}
  {fs : List Bool} {got out : List (Datagram sessionWire)} {i j : Inbox sessionWire}
  {m m' : List (Parcel sessionWire)}
  {t : Pair sessionWire P (Q.failing lossy) α β}

theorem sender_send {κ : Kind} {d : κ.Msg} {k : Unit → Program sessionWire P α} :
    Pair.EndsIn L ⟨⟨h, (sendPacket κ d).bind k⟩, r, i, j, m, m'⟩ t ↔
      Pair.EndsIn L ⟨⟨h, k ()⟩, r, i, deliver j [parcel κ d], m, m'⟩ t :=
  Pair.left_emit

theorem sender_sendPackets {κ : Kind} (ms : List κ.Msg) {k : Unit → Program sessionWire P α} :
    Pair.EndsIn L ⟨⟨h, (sendPackets κ ms).bind k⟩, r, i, j, m, m'⟩ t ↔
      Pair.EndsIn L ⟨⟨h, k ()⟩, r, i, deliver j (ms.map (parcel κ)), m, m'⟩ t := by
  induction ms generalizing j with
  | nil => simp [sendPackets]
  | cons d ms ih =>
    simp only [sendPackets, bind_eq, bind_assoc, sender_send, ih]
    cases j <;> simp

theorem sender_wait {κ : Kind} {d : κ.Msg} {rest : List (Parcel sessionWire)}
    {k : Option κ.Msg → Program sessionWire P α} :
    Pair.EndsIn L ⟨⟨h, @Program.bind sessionWire P (no_index (Option κ.Msg)) α
        (waitPacket κ) k⟩, r, some (parcel κ d :: rest), j, m, m'⟩ t ↔
      Pair.EndsIn L ⟨⟨h, k (some d)⟩, r, some rest, j, m, m'⟩ t :=
  Pair.left_await

theorem receiver_send {κ : Kind} {d : κ.Msg} {k : Unit → Program sessionWire Q β} :
    Pair.EndsIn L ⟨l, ⟨⟨h', fs, got, out⟩, ((sendPacket κ d).bind k).failing lossy⟩, i, j,
        m, m'⟩ t ↔
      Pair.EndsIn L ⟨l, ⟨⟨h', fs, got, out ++ [⟨κ, d⟩]⟩, (k ()).failing lossy⟩,
        deliver i [parcel κ d], j, m, m'⟩ t :=
  Pair.failing_emit

theorem receiver_wait {κ : Kind} (hκ : lossy κ = false) {d : κ.Msg}
    {rest : List (Parcel sessionWire)} {k : Option κ.Msg → Program sessionWire Q β} :
    Pair.EndsIn L ⟨l, ⟨⟨h', fs, got, out⟩, (@Program.bind sessionWire Q (no_index (Option κ.Msg)) β
        (waitPacket κ) k).failing lossy⟩, i, some (parcel κ d :: rest), m, m'⟩ t ↔
      Pair.EndsIn L ⟨l, ⟨⟨h', fs, got ++ [⟨κ, d⟩], out⟩, (k (some d)).failing lossy⟩, i,
        some rest, m, m'⟩ t :=
  Pair.failing_await hκ

/-- The loop of receives, where everything has been sent. -/
theorem receiver_waitAll {κ : Kind} (hκ : lossy κ = true) (ms : List κ.Msg) {n : Nat}
    (hn : n ≤ ms.length) {k : List (Option κ.Msg) → Program sessionWire Q β} :
    Pair.EndsIn L ⟨l, ⟨⟨h', fs, got, out⟩, ((waitPackets κ n).bind k).failing lossy⟩, i,
        some (ms.map (parcel κ)), m, m'⟩ t ↔
      Pair.EndsIn L ⟨l, ⟨⟨h', fs.drop n,
          got ++ ((sieved fs (ms.take n)).filterMap id).map (fun d ↦ ⟨κ, d⟩), out⟩,
        (k (sieved fs (ms.take n))).failing lossy⟩, i,
        some ((ms.drop n).map (parcel κ)), m, m'⟩ t := by
  obtain ⟨front, back, rfl, rfl⟩ := exists_append_of_le hn
  rw [List.take_left, List.drop_left, List.map_append, ← Nat.add_zero front.length]
  refine (Pair.failing_awaitAll (W := sessionWire) hκ () front 0).trans ?_
  simp [awaitAll]

/-- A loop that is promised more than there is takes it all and waits. -/
theorem receiver_waitMore {κ : Kind} (hκ : lossy κ = true) (ms : List κ.Msg) {n : Nat}
    (hn : ms.length < n) (k : List (Option κ.Msg) → Program sessionWire Q β) :
    ∃ s k', ∀ t : Pair sessionWire P (Q.failing lossy) α β,
      Pair.EndsIn L ⟨l, ⟨⟨h', fs, got, out⟩, ((waitPackets κ n).bind k).failing lossy⟩, i,
        some (ms.map (parcel κ)), m, m'⟩ t ↔
      Pair.EndsIn L ⟨l, ⟨s, ((waitPacket κ).bind k').failing lossy⟩, i, some [], m, m'⟩ t := by
  obtain ⟨n, rfl⟩ := Nat.exists_eq_add_of_lt hn
  refine ⟨⟨h', fs.drop ms.length, got ++ ((sieved fs ms).filterMap id).map (fun d ↦ ⟨κ, d⟩), out⟩,
    fun d ↦ (waitPackets κ n).bind fun more ↦ k (sieved fs ms ++ d :: more), fun t ↦ ?_⟩
  rw [← List.append_nil (ms.map (parcel κ)), Nat.add_assoc]
  refine (Pair.failing_awaitAll (W := sessionWire) hκ () ms (n + 1)).trans ?_
  simp only [awaitAll, bind_eq, bind_assoc, pure_eq, ret_bind]

end Rules

/-! ## Uploads

`Client::send_file` against `RequestHandler::receive_file`. -/

/-- The kind of datagram a file is sent in. -/
def isPacket (κ : sessionWire.Kind) : Bool := κ = Kind.packet

/-- `receive_file`, once the packets have arrived or failed to. -/
def storePackets (file : Name) (n : UInt32) (recvFile : List (Option Packet)) :
    RequestHandler.Prog Unit :=
  if recvFile.countP Option.isSome = n.toNat then
    (RequestHandler.file (.writeFile file recvFile [])).bind fun write ↦ sendPacket .ack ⟨write⟩
  else sendPacket .ack ⟨false⟩

/-- A client and a request handler whose receives of packets fail. -/
@[reducible] def uploadLink :
    Link sessionWire Client.sig (RequestHandler.sig.failing isPacket) where
  leftBody := Client.body
  rightBody := Bodies.failing isPacket RequestHandler.body
  leftAddr := ()
  rightAddr := ()

/-- An upload to a server that fails to receive some of the packets. -/
def failingUpload (h : Client.Host) (h' : FileHost) (file : Name) (fails : List Bool) :
    Pair sessionWire Client.sig (RequestHandler.sig.failing isPacket)
      Bool Bool where
  left := ⟨h, Client.sendFile file⟩
  right := ⟨⟨h', fails, [], []⟩,
    (RequestHandler.handleRequest .receive).failing isPacket⟩
  toLeft := some []
  toRight := some []

section Upload

variable {h : Client.Host} {h' : FileHost} {file : Name} {fs : List Bool} {read : ReadResult}
  {info : FileInfo}
  {t : Pair sessionWire Client.sig (RequestHandler.sig.failing isPacket) Bool Bool}
  {r : Endpoint sessionWire (RequestHandler.sig.failing isPacket) Bool}
  {i j : Inbox sessionWire} {k : Bool → Client.Prog Bool} {d : Datagram sessionWire}
  {D : FileHost → Prop} {E : Frail sessionWire FileHost → Prop}

theorem client_query {o : FileOp} {v : o.Res} (ho : o.exec h.files = .ok (v, h.files))
    {k : o.Res → Client.Prog Bool} :
    Pair.EndsIn uploadLink ⟨⟨h, (Client.file o).bind k⟩, r, i, j, [], []⟩ t ↔
      Pair.EndsIn uploadLink ⟨⟨h, k v⟩, r, i, j, [], []⟩ t :=
  Pair.left_run (P := Client.sig) (Client.Op.exec_file ho)

/-- The client announces the file and waits for an answer. -/
theorem client_announces (hread : h.files.readFile file = .ok read)
    (hinfo : h.files.getFileInfo file = .ok info) :
    Pair.EndsIn uploadLink ⟨⟨h, (Client.sendFile file).bind k⟩, r, i, j, [], []⟩ t ↔
      Pair.EndsIn uploadLink ⟨⟨h, Client.waitAck.bind fun accepted ↦
          (if !accepted then .ret false
          else (sendPackets .packet read.packets).bind fun _ ↦ Client.concludeUpload file).bind k⟩,
        r, i, deliver j [parcel .fileData ⟨info, .ofNat read.fileSizeInPackets⟩], [], []⟩ t := by
  simp only [Client.sendFile, bind_eq, bind_assoc]
  rw [client_query (FileOp.exec_readFile hread), client_query (FileOp.exec_getFileInfo hinfo),
    sender_send]
  rfl

theorem failingUpload_announced (hread : h.files.readFile file = .ok read)
    (hinfo : h.files.getFileInfo file = .ok info) :
    (failingUpload h h' file fs).EndsIn uploadLink t ↔
      Pair.EndsIn uploadLink ⟨⟨h, Client.waitAck.bind fun accepted ↦
          (if !accepted then .ret false
          else (sendPackets .packet read.packets).bind fun _ ↦
            Client.concludeUpload file).bind .ret⟩,
        ⟨⟨h', fs, [⟨Kind.fileData, ⟨info, .ofNat read.fileSizeInPackets⟩⟩], []⟩,
          (RequestHandler.receiveAnnounced ⟨info, .ofNat read.fileSizeInPackets⟩).failing isPacket⟩,
        some [], some [], [], []⟩ t := by
  rw [failingUpload, ← bind_ret (Client.sendFile file), client_announces hread hinfo]
  simp only [RequestHandler.handleRequest, RequestHandler.waitFor, bind_eq, bind_assoc,
    deliver_some, List.nil_append]
  rw [receiver_wait rfl]
  rfl

theorem sender_waitAck {d : Ack} {rest : List (Parcel sessionWire)} :
    Pair.EndsIn uploadLink ⟨⟨h, Client.waitAck.bind k⟩, r, some (parcel .ack d :: rest), j,
        [], []⟩ t ↔
      Pair.EndsIn uploadLink ⟨⟨h, k d.confirmation⟩, r, some rest, j, [], []⟩ t := by
  simp only [Client.waitAck, bind_eq, bind_assoc]
  rw [sender_wait]
  rfl

theorem receiveAnnounced_zero : RequestHandler.receiveAnnounced ⟨info, 0⟩ =
    (sendPacket .ack ⟨false⟩).bind fun _ ↦ .ret false := rfl

theorem receiveAnnounced_pos {n : UInt32} (hn : n ≠ 0) :
    RequestHandler.receiveAnnounced ⟨info, n⟩ = (sendPacket .ack ⟨true⟩).bind fun _ ↦
      (RequestHandler.receiveFile info.name n).bind fun _ ↦ .ret true :=
  if_neg (not_not.mpr (UInt32.pos_iff_ne_zero.mpr hn))

/-- A file that is announced with no packets is refused. -/
theorem failingUpload_refused (hread : h.files.readFile file = .ok read)
    (hinfo : h.files.getFileInfo file = .ok info)
    (hzero : UInt32.ofNat read.fileSizeInPackets = 0) :
    (failingUpload h h' file fs).EndsIn uploadLink t ↔
      Pair.EndsIn uploadLink ⟨⟨h, .ret false⟩,
        ⟨⟨h', fs, [⟨Kind.fileData, ⟨info, 0⟩⟩], [⟨Kind.ack, ⟨false⟩⟩]⟩, .ret false⟩,
        some [], some [], [], []⟩ t := by
  rw [failingUpload_announced hread hinfo, hzero, receiveAnnounced_zero, receiver_send]
  simp only [deliver_some, List.nil_append]
  rw [sender_waitAck]
  rfl

/-- A file that is announced with a positive number of packets is sent. -/
theorem failingUpload_sent (h' : FileHost) (fs : List Bool)
    (hread : h.files.readFile file = .ok read)
    (hinfo : h.files.getFileInfo file = .ok info) {n : UInt32}
    (hn : UInt32.ofNat read.fileSizeInPackets = n)
    (hpos : n ≠ 0) :
    (failingUpload h h' file fs).EndsIn uploadLink t ↔
      Pair.EndsIn uploadLink ⟨⟨h, (Client.concludeUpload file).bind .ret⟩,
        ⟨⟨h', fs, [⟨Kind.fileData, ⟨info, n⟩⟩], [⟨Kind.ack, ⟨true⟩⟩]⟩,
          ((RequestHandler.receiveFile info.name n).bind fun _ ↦ .ret true).failing isPacket⟩,
        some [], some (read.packets.map (parcel .packet)), [], []⟩ t := by
  rw [failingUpload_announced hread hinfo, hn, receiveAnnounced_pos hpos, receiver_send]
  simp only [deliver_some, List.nil_append]
  rw [sender_waitAck]
  simp only [Bool.not_true, Bool.false_eq_true, if_false, bind_assoc]
  rw [sender_sendPackets]
  rfl

theorem client_keeps {k : Unit → Client.Prog Bool} :
    Pair.EndsIn uploadLink ⟨⟨h, (Client.keepUnlessSyncing file).bind k⟩, r, i, j, [], []⟩ t ↔
      Pair.EndsIn uploadLink ⟨⟨keptAfter h file, k ()⟩, r, socketAfter h i, j, [], []⟩ t := by
  simp only [Client.keepUnlessSyncing, bind_eq, bind_assoc]
  refine (Pair.left_run (P := Client.sig) (o := .isSyncing) rfl).trans ?_
  rw [socketAfter, keptAfter]
  by_cases hs : h.syncing = true
  · rw [if_pos hs, if_pos hs, hs]
    rfl
  · have hnot : (!h.syncing) = true := Bool.not_eq_true' _ ▸ Bool.eq_false_iff.mpr hs
    rw [if_neg hs, if_neg hs, if_pos hnot]
    simp only [discard_eq, bind_assoc, ret_bind]
    exact (Pair.left_run (P := Client.sig) (o := .file (.copyFileToSyncDir file)) rfl).trans
      Pair.left_shut

/-- The server has received what it was going to receive, and answers. -/
theorem failingUpload_received (h' : FileHost) (fs : List Bool)
    (hread : h.files.readFile file = .ok read)
    (hinfo : h.files.getFileInfo file = .ok info) {n : UInt32}
    (hn : UInt32.ofNat read.fileSizeInPackets = n) (hpos : n ≠ 0)
    (hle : n.toNat ≤ read.packets.length) : ∃ got, ∀ t,
      (failingUpload h h' file fs).EndsIn uploadLink t ↔
      Pair.EndsIn uploadLink ⟨⟨h, (Client.concludeUpload file).bind .ret⟩,
        ⟨⟨h', fs.drop n.toNat, got, [⟨Kind.ack, ⟨true⟩⟩]⟩,
          ((storePackets info.name n (sieved fs (read.packets.take n.toNat))).bind fun _ ↦
            .ret true).failing isPacket⟩,
        some [], some ((read.packets.drop n.toNat).map (parcel .packet)), [], []⟩ t := by
  refine ⟨[⟨Kind.fileData, ⟨info, n⟩⟩] ++
    ((sieved fs (read.packets.take n.toNat)).filterMap id).map (fun d ↦ ⟨Kind.packet, d⟩),
    fun t ↦ ?_⟩
  rw [failingUpload_sent h' fs hread hinfo hn hpos]
  simp only [RequestHandler.receiveFile, bind_eq, bind_assoc]
  exact receiver_waitAll rfl _ hle

/-- An upload of which nothing is lost is stored. -/
theorem failingUpload_stored (hread : h.files.readFile file = .ok read)
    (hinfo : h.files.getFileInfo file = .ok info) {n : UInt32}
    (hn : UInt32.ofNat read.fileSizeInPackets = n) (hpos : n ≠ 0)
    (hle : n.toNat ≤ read.packets.length) (hfs : true ∉ fs.take n.toNat) :
    (failingUpload h h' file fs).Retried uploadLink ⟨Kind.ack, ⟨true⟩⟩ (fun s ↦ D s.host) ↔
      D (h'.store info.name [] (read.packets.take n.toNat)) := by
  obtain ⟨got, hend⟩ := failingUpload_received h' fs hread hinfo hn hpos hle
  have hlen : (read.packets.take n.toNat).length = n.toNat := List.length_take_of_le hle
  have hsieved : sieved fs (read.packets.take n.toNat) = (read.packets.take n.toNat).map some :=
    sieved_of_not_mem (hlen.symm ▸ hfs)
  have hwrite := FileHost.writeFile_some (h := h') info.name [] (read.packets.take n.toNat)
  have hstored : ∀ t, (failingUpload h h' file fs).EndsIn uploadLink t ↔
      Pair.EndsIn uploadLink ⟨⟨keptAfter h file, .ret true⟩,
        ⟨⟨h'.store info.name [] (read.packets.take n.toNat), fs.drop n.toNat, got,
          [⟨Kind.ack, ⟨true⟩⟩, ⟨Kind.ack, ⟨true⟩⟩]⟩, .ret true⟩,
        socketAfter h (some []), some ((read.packets.drop n.toNat).map (parcel .packet)),
        [], []⟩ t := by
    intro t
    rw [hend, hsieved, storePackets, if_pos ((countP_some _).trans hlen)]
    simp only [bind_assoc]
    refine (Pair.failing_run (Q := RequestHandler.sig) (o := .writeFile ..) hwrite).trans ?_
    rw [receiver_send]
    simp only [deliver_some, List.nil_append, Client.concludeUpload, bind_eq, bind_assoc]
    rw [sender_waitAck]
    simp only [Bool.not_true, Bool.false_eq_true, if_false, bind_assoc]
    exact client_keeps
  rw [Pair.retried_iff_of_returned hstored ⟨rfl, rfl⟩]
  exact ⟨fun hd ↦ hd ⟨⟨true, rfl⟩, rfl⟩, fun hd _ ↦ hd⟩

/-- A client whose file was not accepted announces it again. -/
theorem client_retries (hread : h.files.readFile file = .ok read)
    (hinfo : h.files.getFileInfo file = .ok info) : ∃ k, ∀ t,
      Pair.EndsIn uploadLink ⟨⟨h, (Client.concludeUpload file).bind .ret⟩, r,
        some [parcel .ack ⟨false⟩], j, [], []⟩ t ↔
      Pair.EndsIn uploadLink ⟨⟨h, Client.waitAck.bind k⟩, r, some [],
        deliver j [parcel .fileData ⟨info, .ofNat read.fileSizeInPackets⟩], [], []⟩ t := by
  have hagain : ∀ t, Pair.EndsIn uploadLink ⟨⟨h, (Client.concludeUpload file).bind .ret⟩, r,
        some [parcel .ack ⟨false⟩], j, [], []⟩ t ↔
      Pair.EndsIn uploadLink ⟨⟨h, (Client.sendFile file).bind fun _ ↦
        (Client.keepUnlessSyncing file).bind fun _ ↦ .ret true⟩, r, some [], j, [], []⟩ t := by
    intro t
    simp only [Client.concludeUpload, bind_eq, bind_assoc]
    rw [sender_waitAck]
    simp only [Bool.not_false, if_true, discard_eq, bind_assoc]
    exact Pair.left_invoke
  exact ⟨_, fun t ↦ (hagain t).trans (client_announces hread hinfo)⟩

/-- An upload of which something is lost leaves the client waiting. -/
theorem failingUpload_stranded (hread : h.files.readFile file = .ok read)
    (hinfo : h.files.getFileInfo file = .ok info) {n : UInt32}
    (hn : UInt32.ofNat read.fileSizeInPackets = n) (hpos : n ≠ 0)
    (hle : n.toNat ≤ read.packets.length) (hfs : true ∈ fs.take n.toNat) :
    ¬ (failingUpload h h' file fs).Retried uploadLink d E := by
  obtain ⟨got, hend⟩ := failingUpload_received h' fs hread hinfo hn hpos hle
  have hlen : (read.packets.take n.toNat).length = n.toNat := List.length_take_of_le hle
  have hcount : (sieved fs (read.packets.take n.toNat)).countP Option.isSome < _ :=
    countP_sieved_lt (hlen.symm ▸ hfs)
  have hrefused : ∀ t, (failingUpload h h' file fs).EndsIn uploadLink t ↔
      Pair.EndsIn uploadLink ⟨⟨h, (Client.concludeUpload file).bind .ret⟩,
        ⟨⟨h', fs.drop n.toNat, got, [⟨Kind.ack, ⟨true⟩⟩, ⟨Kind.ack, ⟨false⟩⟩]⟩, .ret true⟩,
        some [parcel .ack ⟨false⟩], some ((read.packets.drop n.toNat).map (parcel .packet)),
        [], []⟩ t := by
    intro t
    rw [hend, storePackets, if_neg (hcount.trans_eq hlen).ne, receiver_send]
    rfl
  obtain ⟨k, hretry⟩ := client_retries hread hinfo
  exact Pair.not_retried (fun t ↦ (hrefused t).trans (hretry t))
    (.inl ⟨⟨⟨Kind.ack, _, rfl⟩, rfl⟩, true, rfl⟩)

/-- An upload that is announced with too many packets leaves both sides waiting. -/
theorem failingUpload_starved (hread : h.files.readFile file = .ok read)
    (hinfo : h.files.getFileInfo file = .ok info) {n : UInt32}
    (hn : UInt32.ofNat read.fileSizeInPackets = n) (hlt : read.packets.length < n.toNat) :
    (failingUpload h h' file fs).Retried uploadLink d E := by
  have hpos : n ≠ 0 := by
    rintro rfl
    simp at hlt
  have hsent := fun t ↦ failingUpload_sent (t := t) h' fs hread hinfo hn hpos
  simp only [RequestHandler.receiveFile, bind_eq, bind_assoc] at hsent
  obtain ⟨s, k, hmore⟩ := receiver_waitMore (Q := RequestHandler.sig)
    (rfl : isPacket .packet = true) read.packets hlt _
  exact Pair.retried_of_open (fun t ↦ (hsent t).trans (hmore t)) ⟨⟨Kind.ack, _, rfl⟩, rfl⟩
    (Endpoint.waiting_failing s)

end Upload

/-- An upload is retried until the server holds the file. -/
def UploadRetried (h : Client.Host) (h' : FileHost) (file : Name) (x : File) (p : Path)
    (fails : List Bool) : Prop :=
  (failingUpload h h' file fails).Retried uploadLink ⟨Kind.ack, ⟨true⟩⟩
    fun s ↦ Holds s.host p x.contents

/-- No receive of an announced packet fails: there is none, or there are too few packets for the
loop to come to its end, or the script has no failure in time. -/
def NothingLost (n : UInt32) (c : Contents) (fails : List Bool) : Prop :=
  n = 0 ∨ (packetsOf c).length < n.toNat ∨ true ∉ fails.take n.toNat

/-- **An upload is retried exactly if the announced count covers the file and nothing is lost.** -/
theorem upload_retried_iff {h : Client.Host} {h' : FileHost} {file : Name} {x : File} {p : Path}
    (up : Upload h h' file x p) (fails : List Bool) :
    UploadRetried h h' file x p fails ↔
      CountCovers x.size ∧ NothingLost (listedCount x.size) x.contents fails := by
  obtain ⟨info, hinfo, hopen⟩ := up.opens
  have hread := FileHost.readFile_of_stat up.reads
  rw [up.counts] at hread
  by_cases hzero : listedCount x.size = 0
  · refine iff_of_true ?_ ⟨.inl hzero, .inl hzero⟩
    rw [UploadRetried,
      Pair.retried_iff_of_returned (fun t ↦ failingUpload_refused hread hinfo hzero) ⟨rfl, rfl⟩]
    rintro ⟨-, hlast⟩
    exact absurd hlast (by simp)
  rcases Nat.lt_or_ge (packetsOf x.contents).length (listedCount x.size).toNat with hlt | hle
  · exact iff_of_true (failingUpload_starved hread hinfo rfl hlt)
      ⟨.of_length_lt hlt, .inr (.inl hlt)⟩
  by_cases hfails : true ∈ fails.take (listedCount x.size).toNat
  · refine iff_of_false (failingUpload_stranded hread hinfo rfl hzero hle hfails) ?_
    rintro ⟨-, h0 | hlt | hnot⟩
    · exact hzero h0
    · omega
    · exact hnot hfails
  · rw [UploadRetried, failingUpload_stored (D := (Holds · p x.contents)) hread hinfo rfl hzero hle
      hfails, holds_store hopen up.notDir, CountCovers, or_iff_right hzero,
      and_iff_left (.inr (.inr hfails))]
    rfl

/-! ## The server as the sender

`RequestHandler::send_file`, up to the acknowledgement that it waits for. -/

/-- A request handler and a client whose receives of a kind fail. -/
@[reducible] def sendingLink (lossy : sessionWire.Kind → Bool) :
    Link sessionWire RequestHandler.sig (Client.sig.failing lossy) where
  leftBody := RequestHandler.body
  rightBody := Bodies.failing lossy Client.body
  leftAddr := ()
  rightAddr := ()

section Sending

variable {lossy : sessionWire.Kind → Bool} {h : Client.Host} {h' : FileHost} {name : Name}
  {fs : List Bool} {read : ReadResult} {info : FileInfo} {got out : List (Datagram sessionWire)}
  {t : Pair sessionWire RequestHandler.sig (Client.sig.failing lossy) Bool Bool}
  {r : Endpoint sessionWire (Client.sig.failing lossy) Bool}
  {l : Endpoint sessionWire RequestHandler.sig Bool} {i j : Inbox sessionWire}

theorem server_query {o : FileOp} {v : o.Res} (ho : o.exec h' = .ok (v, h'))
    {k : o.Res → RequestHandler.Prog Bool} :
    Pair.EndsIn (sendingLink lossy) ⟨⟨h', (RequestHandler.file o).bind k⟩, r, i, j, [], []⟩ t ↔
      Pair.EndsIn (sendingLink lossy) ⟨⟨h', k v⟩, r, i, j, [], []⟩ t :=
  Pair.left_run (P := RequestHandler.sig) ho

theorem server_waitFor {κ : Kind} {d : κ.Msg} {rest : List (Parcel sessionWire)}
    {k : κ.Msg → RequestHandler.Prog Bool} :
    Pair.EndsIn (sendingLink lossy) ⟨⟨h', (RequestHandler.waitFor κ).bind k⟩, r,
        some (parcel κ d :: rest), j, [], []⟩ t ↔
      Pair.EndsIn (sendingLink lossy) ⟨⟨h', k d⟩, r, some rest, j, [], []⟩ t := by
  simp only [RequestHandler.waitFor, bind_eq, bind_assoc]
  exact Pair.left_await (W := sessionWire)

/-- The server announces a file, sends it, and waits for an answer. -/
theorem server_announces (hread : h'.readFile name = .ok read)
    (hinfo : h'.getFileInfo name = .ok info) {k : Unit → RequestHandler.Prog Bool} :
    Pair.EndsIn (sendingLink lossy) ⟨⟨h', (RequestHandler.sendFile name).bind k⟩, r, i,
        j, [], []⟩ t ↔
      Pair.EndsIn (sendingLink lossy) ⟨⟨h', (RequestHandler.waitFor .ack).bind fun ack ↦
          (RequestHandler.resendUnless ack.confirmation name).bind k⟩, r, i,
        deliver j (parcel .fileData ⟨info, .ofNat read.fileSizeInPackets⟩ ::
          read.packets.map (parcel .packet)), [], []⟩ t := by
  simp only [RequestHandler.sendFile, bind_eq, bind_assoc]
  refine (Pair.left_attempt (P := RequestHandler.sig) (FileOp.exec_readFile hread)).trans ?_
  simp only [bind_assoc]
  rw [server_query (FileOp.exec_getFileInfo hinfo), sender_send, sender_sendPackets,
    ← deliver_append]
  rfl

theorem receiver_resets {k : Unit → Client.Prog Bool} :
    Pair.EndsIn (sendingLink lossy) ⟨l, ⟨⟨h, fs, got, out⟩,
        (Client.resetUnlessSyncing.bind k).failing lossy⟩, i, j, [], []⟩ t ↔
      Pair.EndsIn (sendingLink lossy) ⟨l, ⟨⟨h, fs, got, out⟩, (k ()).failing lossy⟩, i,
        socketAfter h j, [], []⟩ t := by
  simp only [Client.resetUnlessSyncing, bind_eq, bind_assoc]
  refine (Pair.failing_run (Q := Client.sig) (o := .isSyncing) rfl).trans ?_
  rw [socketAfter]
  cases h.syncing with
  | true => exact Iff.rfl
  | false => exact Pair.failing_shut

/-- After a negative acknowledgement the server sends the file again, and waits again. -/
theorem server_retries (hread : h'.readFile name = .ok read)
    (hinfo : h'.getFileInfo name = .ok info) {k : Unit → RequestHandler.Prog Bool} :
    Pair.EndsIn (sendingLink lossy) ⟨⟨h', (RequestHandler.waitFor .ack).bind fun ack ↦
          (RequestHandler.resendUnless ack.confirmation name).bind k⟩, r,
        some [parcel .ack ⟨false⟩], j, [], []⟩ t ↔
      Pair.EndsIn (sendingLink lossy) ⟨⟨h', (RequestHandler.waitFor .ack).bind fun ack ↦
          (RequestHandler.resendUnless ack.confirmation name).bind k⟩, r, some [],
        deliver j (parcel .fileData ⟨info, .ofNat read.fileSizeInPackets⟩ ::
          read.packets.map (parcel .packet)), [], []⟩ t := by
  rw [server_waitFor]
  exact Pair.left_invoke.trans (server_announces hread hinfo)

end Sending

/-! ## Downloads

`RequestHandler::send_file` against `Client::get_file`. -/

/-- A download by a client that fails to receive some of the packets. -/
def failingDownload (h : Client.Host) (h' : FileHost) (file path : Name) (fails : List Bool) :
    Pair sessionWire RequestHandler.sig (Client.sig.failing isPacket) Bool Bool where
  left := ⟨h', RequestHandler.handleRequest .send⟩
  right := ⟨⟨h, fails, [], []⟩, (Client.getFile file path).failing isPacket⟩
  toLeft := some []
  toRight := some []

section Download

variable {h : Client.Host} {h' : FileHost} {file path : Name} {fs : List Bool} {read : ReadResult}
  {info info' : FileInfo}
  {t : Pair sessionWire RequestHandler.sig (Client.sig.failing isPacket) Bool Bool}
  {d : Datagram sessionWire} {D : Client.Host → Prop} {E : Frail sessionWire Client.Host → Prop}

/-- What the server does after it has sent a file. -/
def concludeDownload (name : Name) : RequestHandler.Prog Bool :=
  (RequestHandler.waitFor .ack).bind fun ack ↦
    (RequestHandler.resendUnless ack.confirmation name).bind fun _ ↦ .ret true

/-- What the client does once it has received the packets, or failed to. -/
def keepPackets (file path : Name) (n : UInt32) (recvFile : List (Option Packet)) :
    Client.Prog Bool :=
  if recvFile.countP Option.isSome = n.toNat then
    (sendPacket .ack ⟨true⟩).bind fun _ ↦
      (discard (Client.file (.writeFile file recvFile path))).bind fun _ ↦
        Client.resetUnlessSyncing.bind fun _ ↦ .ret true
  else (sendPacket .ack ⟨false⟩).bind fun _ ↦ Client.resetUnlessSyncing.bind fun _ ↦ .ret true

theorem receiveRequested_eq : Client.receiveRequested file path =
    (waitPacket .fileData).bind fun fileData ↦
    (expect (P := Client.sig) Exn.nullPointer fileData).bind fun fileData ↦
      if fileData.numPackets = 0 then Client.resetUnlessSyncing.bind fun _ ↦ .ret false
      else (waitPackets .packet fileData.numPackets.toNat).bind
        (keepPackets file path fileData.numPackets) := rfl

/-- The server has sent the file, and the client has seen the announcement. -/
theorem failingDownload_sent (path : Name) (fs : List Bool)
    (hasked : h.files.getFileInfo file = .ok info)
    (hread : h'.readFile info.name = .ok read) (hinfo : h'.getFileInfo info.name = .ok info')
    {n : UInt32} (hn : UInt32.ofNat read.fileSizeInPackets = n) :
    (failingDownload h h' file path fs).EndsIn (sendingLink isPacket) t ↔
      Pair.EndsIn (sendingLink isPacket) ⟨⟨h', concludeDownload info.name⟩,
        ⟨⟨h, fs, [⟨Kind.fileData, ⟨info', n⟩⟩], [⟨Kind.fileData, ⟨info, 0⟩⟩]⟩,
          (if n = 0 then Client.resetUnlessSyncing.bind fun _ ↦ .ret false
          else (waitPackets .packet n.toNat).bind (keepPackets file path n)).failing isPacket⟩,
        some [], some (read.packets.map (parcel .packet)), [], []⟩ t := by
  simp only [failingDownload, Client.getFile, bind_eq, RequestHandler.handleRequest]
  refine (Pair.failing_run (Q := Client.sig)
    (Client.Op.exec_file (FileOp.exec_getFileInfo hasked))).trans ?_
  rw [receiver_send]
  simp only [deliver_some, List.nil_append]
  rw [server_waitFor, server_announces hread hinfo, receiveRequested_eq, deliver_some,
    List.nil_append, receiver_wait rfl, hn]
  rfl

/-- The client has received what it was going to receive. -/
theorem failingDownload_received (path : Name) (fs : List Bool)
    (hasked : h.files.getFileInfo file = .ok info)
    (hread : h'.readFile info.name = .ok read) (hinfo : h'.getFileInfo info.name = .ok info')
    {n : UInt32} (hn : UInt32.ofNat read.fileSizeInPackets = n) (hpos : n ≠ 0)
    (hle : n.toNat ≤ read.packets.length) : ∃ got, ∀ t,
      (failingDownload h h' file path fs).EndsIn (sendingLink isPacket) t ↔
      Pair.EndsIn (sendingLink isPacket) ⟨⟨h', concludeDownload info.name⟩,
        ⟨⟨h, fs.drop n.toNat, got, [⟨Kind.fileData, ⟨info, 0⟩⟩]⟩,
          (keepPackets file path n (sieved fs (read.packets.take n.toNat))).failing isPacket⟩,
        some [], some ((read.packets.drop n.toNat).map (parcel .packet)), [], []⟩ t := by
  refine ⟨[⟨Kind.fileData, ⟨info', n⟩⟩] ++
    ((sieved fs (read.packets.take n.toNat)).filterMap id).map (fun d ↦ ⟨Kind.packet, d⟩),
    fun t ↦ ?_⟩
  rw [failingDownload_sent path fs hasked hread hinfo hn, if_neg hpos]
  exact receiver_waitAll rfl _ hle

/-- A download of which nothing is lost is stored. -/
theorem failingDownload_stored (hasked : h.files.getFileInfo file = .ok info)
    (hread : h'.readFile info.name = .ok read) (hinfo : h'.getFileInfo info.name = .ok info')
    {n : UInt32} (hn : UInt32.ofNat read.fileSizeInPackets = n) (hpos : n ≠ 0)
    (hle : n.toNat ≤ read.packets.length) (hfs : true ∉ fs.take n.toNat) :
    (failingDownload h h' file path fs).Retried (sendingLink isPacket) ⟨Kind.ack, ⟨true⟩⟩
        (fun s ↦ D s.host) ↔
      D { h with files := h.files.store file path (read.packets.take n.toNat) } := by
  obtain ⟨got, hend⟩ := failingDownload_received path fs hasked hread hinfo hn hpos hle
  have hlen : (read.packets.take n.toNat).length = n.toNat := List.length_take_of_le hle
  have hsieved : sieved fs (read.packets.take n.toNat) = (read.packets.take n.toNat).map some :=
    sieved_of_not_mem (hlen.symm ▸ hfs)
  have hwrite := Client.Op.exec_file
    (o := .writeFile file ((read.packets.take n.toNat).map some) path)
    (FileHost.writeFile_some (h := h.files) ..)
  have hstored : ∀ t, (failingDownload h h' file path fs).EndsIn (sendingLink isPacket) t ↔
      Pair.EndsIn (sendingLink isPacket) ⟨⟨h', .ret true⟩,
        ⟨⟨{ h with files := h.files.store file path (read.packets.take n.toNat) },
          fs.drop n.toNat, got, [⟨Kind.fileData, ⟨info, 0⟩⟩, ⟨Kind.ack, ⟨true⟩⟩]⟩, .ret true⟩,
        some [], socketAfter h (some ((read.packets.drop n.toNat).map (parcel .packet))),
        [], []⟩ t := by
    intro t
    rw [hend, hsieved, keepPackets, if_pos ((countP_some _).trans hlen), receiver_send]
    simp only [discard_eq, Program.bind_assoc, deliver_some, List.nil_append]
    refine (Pair.failing_run (Q := Client.sig) hwrite).trans ?_
    rw [ret_bind, receiver_resets, concludeDownload, server_waitFor]
    rfl
  rw [Pair.retried_iff_of_returned hstored ⟨rfl, rfl⟩]
  exact ⟨fun hd ↦ hd ⟨⟨true, rfl⟩, rfl⟩, fun hd _ ↦ hd⟩

/-- A download of which something is lost leaves the server waiting. -/
theorem failingDownload_stranded (hasked : h.files.getFileInfo file = .ok info)
    (hread : h'.readFile info.name = .ok read) (hinfo : h'.getFileInfo info.name = .ok info')
    {n : UInt32} (hn : UInt32.ofNat read.fileSizeInPackets = n) (hpos : n ≠ 0)
    (hle : n.toNat ≤ read.packets.length) (hfs : true ∈ fs.take n.toNat) :
    ¬ (failingDownload h h' file path fs).Retried (sendingLink isPacket) d E := by
  obtain ⟨got, hend⟩ := failingDownload_received path fs hasked hread hinfo hn hpos hle
  have hlen : (read.packets.take n.toNat).length = n.toNat := List.length_take_of_le hle
  have hcount : (sieved fs (read.packets.take n.toNat)).countP Option.isSome < _ :=
    countP_sieved_lt (hlen.symm ▸ hfs)
  have hrefused : ∀ t, (failingDownload h h' file path fs).EndsIn (sendingLink isPacket) t ↔
      Pair.EndsIn (sendingLink isPacket) ⟨⟨h', concludeDownload info.name⟩,
        ⟨⟨h, fs.drop n.toNat, got, [⟨Kind.fileData, ⟨info, 0⟩⟩, ⟨Kind.ack, ⟨false⟩⟩]⟩, .ret true⟩,
        some [parcel .ack ⟨false⟩],
        socketAfter h (some ((read.packets.drop n.toNat).map (parcel .packet))), [], []⟩ t := by
    intro t
    rw [hend, keepPackets, if_neg (hcount.trans_eq hlen).ne, receiver_send, receiver_resets]
    rfl
  refine Pair.not_retried (fun t ↦ (hrefused t).trans (server_retries hread hinfo)) ?_
  exact .inl ⟨⟨⟨Kind.ack, _, rfl⟩, rfl⟩, true, rfl⟩

/-- A download that is announced with too many packets leaves both sides waiting. -/
theorem failingDownload_starved (hasked : h.files.getFileInfo file = .ok info)
    (hread : h'.readFile info.name = .ok read) (hinfo : h'.getFileInfo info.name = .ok info')
    {n : UInt32} (hn : UInt32.ofNat read.fileSizeInPackets = n)
    (hlt : read.packets.length < n.toNat) :
    (failingDownload h h' file path fs).Retried (sendingLink isPacket) d E := by
  have hpos : n ≠ 0 := by
    rintro rfl
    simp at hlt
  have hsent := fun t ↦ failingDownload_sent (t := t) path fs hasked hread hinfo hn
  simp only [if_neg hpos] at hsent
  obtain ⟨s, k, hmore⟩ := receiver_waitMore (Q := Client.sig)
    (rfl : isPacket .packet = true) read.packets hlt (keepPackets file path n)
  exact Pair.retried_of_open (fun t ↦ (hsent t).trans (hmore t)) ⟨⟨Kind.ack, _, rfl⟩, rfl⟩
    (Endpoint.waiting_failing s)

/-- A download that is announced with no packets leaves the server waiting. -/
theorem failingDownload_refused (hasked : h.files.getFileInfo file = .ok info)
    (hread : h'.readFile info.name = .ok read) (hinfo : h'.getFileInfo info.name = .ok info')
    (hzero : UInt32.ofNat read.fileSizeInPackets = 0) :
    ¬ (failingDownload h h' file path fs).Retried (sendingLink isPacket) d E := by
  have hsent := fun t ↦ failingDownload_sent (t := t) path fs hasked hread hinfo hzero
  simp only [if_true] at hsent
  refine Pair.not_retried (fun t ↦ (hsent t).trans receiver_resets)
    (.inl ⟨⟨⟨Kind.ack, _, rfl⟩, rfl⟩, false, rfl⟩)

end Download

/-- A download is retried until the client holds the file. -/
def DownloadRetried (h : Client.Host) (h' : FileHost) (file path : Name) (x : File) (p : Path)
    (fails : List Bool) : Prop :=
  (failingDownload h h' file path fails).Retried (sendingLink isPacket) ⟨Kind.ack, ⟨true⟩⟩
    fun s ↦ Holds s.host.files p x.contents

/-- **A download is retried exactly if something is announced, the count covers the file and nothing
is lost.** -/
theorem download_retried_iff {h : Client.Host} {h' : FileHost} {file path : Name} {x : File}
    {p : Path} (down : Download h h' file path x p) (fails : List Bool) :
    DownloadRetried h h' file path x p fails ↔
      listedCount x.size ≠ 0 ∧ CountCovers x.size ∧
        NothingLost (listedCount x.size) x.contents fails := by
  obtain ⟨info, info', hasked, hstat, hinfo⟩ := down.reads
  have hread := FileHost.readFile_of_stat hstat
  rw [down.counts] at hread
  by_cases hzero : listedCount x.size = 0
  · exact iff_of_false (failingDownload_refused hasked hread hinfo hzero) fun hc ↦ hc.1 hzero
  rw [and_iff_right hzero]
  rcases Nat.lt_or_ge (packetsOf x.contents).length (listedCount x.size).toNat with hlt | hle
  · exact iff_of_true (failingDownload_starved hasked hread hinfo rfl hlt)
      ⟨.of_length_lt hlt, .inr (.inl hlt)⟩
  by_cases hfails : true ∈ fails.take (listedCount x.size).toNat
  · refine iff_of_false (failingDownload_stranded hasked hread hinfo rfl hzero hle hfails) ?_
    rintro ⟨-, h0 | hlt | hnot⟩
    · exact hzero h0
    · omega
    · exact hnot hfails
  · rw [DownloadRetried, failingDownload_stored (D := (Holds ·.files p x.contents)) hasked hread
      hinfo rfl hzero hle hfails, holds_store down.opens down.notDir, CountCovers,
      or_iff_right hzero, and_iff_left (.inr (.inr hfails))]
    rfl

/-! ## Listings

`RequestHandler::list_files` against `Client::list_server_files`: the same shape once more, with the
entries for the packets and their number for the announcement. -/

/-- The kind of datagram a listing is sent in. -/
def isFileData (κ : sessionWire.Kind) : Bool := κ = Kind.fileData

/-- A listing by a client that receives the announcement and fails to receive some of the
entries. -/
def failingListing (h : Client.Host) (h' : FileHost) (fails : List Bool) :
    Pair sessionWire RequestHandler.sig (Client.sig.failing isFileData) Bool Bool where
  left := ⟨h', RequestHandler.handleRequest .list⟩
  right := ⟨⟨h, false :: fails, [], []⟩, Client.listServerFiles.failing isFileData⟩
  toLeft := some []
  toRight := some []

/-- A list of files as it arrives: how many entries there are, and the entries. -/
def listing (entries : List FileData) : List (Datagram sessionWire) :=
  ⟨Kind.fileData, ⟨{}, .ofNat entries.length⟩⟩ :: entries.map fun d ↦ ⟨Kind.fileData, d⟩

section Listing

variable {h : Client.Host} {h' : FileHost} {fs : List Bool} {entries : List FileData}
  {t : Pair sessionWire RequestHandler.sig (Client.sig.failing isFileData) Bool Bool}
  {r : Endpoint sessionWire (Client.sig.failing isFileData) Bool} {i j : Inbox sessionWire}
  {d : Datagram sessionWire} {E : Frail sessionWire Client.Host → Prop}

/-- What the server does after it has sent the list. -/
def concludeListing : RequestHandler.Prog Bool :=
  (RequestHandler.waitFor .ack).bind fun ack ↦
    (RequestHandler.relistUnless ack.confirmation).bind fun _ ↦ .ret true

/-- What the client does once it has received the entries, or failed to. -/
def answerListing (n : UInt32) (receivedFileData : List (Option FileData)) : Client.Prog Bool :=
  (sendPacket .ack ⟨decide (receivedFileData.countP Option.isSome = n.toNat)⟩).bind fun _ ↦
    Client.resetUnlessSyncing.bind fun _ ↦ .ret true

theorem server_lists (hlist : h'.getFileInfoList = .ok entries) :
    Pair.EndsIn (sendingLink isFileData) ⟨⟨h', RequestHandler.listFiles.bind fun _ ↦ .ret true⟩, r,
        i, j, [], []⟩ t ↔
      Pair.EndsIn (sendingLink isFileData) ⟨⟨h', concludeListing⟩, r, i,
        deliver j (parcel .fileData ⟨{}, .ofNat entries.length⟩ ::
          entries.map (parcel .fileData)), [], []⟩ t := by
  simp only [RequestHandler.listFiles, bind_eq, Program.bind_assoc]
  rw [server_query (FileOp.exec_getFileInfoList hlist), sender_send, sender_sendPackets,
    ← deliver_append]
  rfl

/-- After a negative acknowledgement the server sends the list again, and waits again. -/
theorem server_relists (hlist : h'.getFileInfoList = .ok entries) :
    Pair.EndsIn (sendingLink isFileData) ⟨⟨h', concludeListing⟩, r, some [parcel .ack ⟨false⟩], j,
        [], []⟩ t ↔
      Pair.EndsIn (sendingLink isFileData) ⟨⟨h', concludeListing⟩, r, some [],
        deliver j (parcel .fileData ⟨{}, .ofNat entries.length⟩ ::
          entries.map (parcel .fileData)), [], []⟩ t := by
  rw [concludeListing, server_waitFor]
  exact Pair.left_invoke.trans (server_lists hlist)

theorem receiveList_of_pos {n : UInt32} (hpos : n ≠ 0) : Client.receiveList (some ⟨{}, n⟩) =
    (waitPackets .fileData n.toNat).bind (answerListing n) := by
  simp only [Client.receiveList, bind_eq, expect_some, ret_bind, if_neg hpos]
  congr 1
  funext received
  rw [answerListing]
  split
  · rename_i hcount
    rw [decide_eq_true hcount]
    rfl
  · rename_i hcount
    rw [decide_eq_false hcount]
    rfl

/-- The server has sent the list, and the client has seen how long it is. -/
theorem failingListing_sent (h : Client.Host) (fs : List Bool)
    (hlist : h'.getFileInfoList = .ok entries) {n : UInt32} (hn : UInt32.ofNat entries.length = n) :
    (failingListing h h' fs).EndsIn (sendingLink isFileData) t ↔
      Pair.EndsIn (sendingLink isFileData) ⟨⟨h', concludeListing⟩,
        ⟨⟨h, fs, [⟨Kind.fileData, ⟨{}, n⟩⟩], [⟨Kind.ack, ⟨true⟩⟩]⟩,
          (Client.receiveList (some ⟨{}, n⟩)).failing isFileData⟩,
        some [], some (entries.map (parcel .fileData)), [], []⟩ t := by
  simp only [failingListing, Client.listServerFiles, bind_eq, RequestHandler.handleRequest,
    discard_eq, Program.bind_assoc, ret_bind, pure_eq]
  rw [receiver_send]
  simp only [deliver_some, List.nil_append]
  rw [sender_wait, server_lists hlist, deliver_some, List.nil_append, hn]
  exact Pair.failing_await_lossy (W := sessionWire) (κ := Kind.fileData) rfl

/-- The client has received what it was going to receive, and answers. -/
theorem failingListing_answered (h : Client.Host) (fs : List Bool)
    (hlist : h'.getFileInfoList = .ok entries) {n : UInt32} (hn : UInt32.ofNat entries.length = n) :
    ∃ j', ∀ t, (failingListing h h' fs).EndsIn (sendingLink isFileData) t ↔
      Pair.EndsIn (sendingLink isFileData) ⟨⟨h', concludeListing⟩,
        ⟨⟨h, fs.drop n.toNat, ⟨Kind.fileData, ⟨{}, n⟩⟩ ::
            ((sieved fs (entries.take n.toNat)).filterMap id).map (fun d ↦ ⟨Kind.fileData, d⟩),
          [⟨Kind.ack, ⟨true⟩⟩, ⟨Kind.ack, ⟨decide
            ((sieved fs (entries.take n.toNat)).countP Option.isSome = n.toNat)⟩⟩]⟩, .ret true⟩,
        some [parcel .ack ⟨decide
          ((sieved fs (entries.take n.toNat)).countP Option.isSome = n.toNat)⟩], j', [], []⟩ t := by
  by_cases hzero : n = 0
  · refine ⟨some (entries.map (parcel .fileData)), fun t ↦ ?_⟩
    subst hzero
    rw [failingListing_sent h fs hlist hn]
    exact receiver_send
  · have hle : n.toNat ≤ entries.length := hn ▸ toNat_ofNat_le _
    refine ⟨socketAfter h (some ((entries.drop n.toNat).map (parcel .fileData))), fun t ↦ ?_⟩
    rw [failingListing_sent h fs hlist hn, receiveList_of_pos hzero, receiver_waitAll rfl _ hle,
      answerListing, receiver_send, receiver_resets]
    rfl

/-- A list of which nothing is lost is received. -/
theorem failingListing_received (hlist : h'.getFileInfoList = .ok entries) {n : UInt32}
    (hn : UInt32.ofNat entries.length = n) (hfs : true ∉ fs.take n.toNat) :
    (failingListing h h' fs).Retried (sendingLink isFileData) ⟨Kind.ack, ⟨true⟩⟩
        (fun s ↦ s.received = listing entries) ↔ entries.take n.toNat = entries := by
  have hlen : (entries.take n.toNat).length = n.toNat :=
    List.length_take_of_le (hn ▸ toNat_ofNat_le _)
  have hsieved : sieved fs (entries.take n.toNat) = (entries.take n.toNat).map some :=
    sieved_of_not_mem (hlen.symm ▸ hfs)
  obtain ⟨j', hend⟩ := failingListing_answered h fs hlist hn
  rw [hsieved, decide_eq_true ((countP_some _).trans hlen)] at hend
  have hreturned : ∀ t, (failingListing h h' fs).EndsIn (sendingLink isFileData) t ↔
      Pair.EndsIn (sendingLink isFileData) ⟨⟨h', .ret true⟩, ⟨⟨h, fs.drop n.toNat,
          ⟨Kind.fileData, ⟨{}, n⟩⟩ :: (entries.take n.toNat).map (fun d ↦ ⟨Kind.fileData, d⟩),
          [⟨Kind.ack, ⟨true⟩⟩, ⟨Kind.ack, ⟨true⟩⟩]⟩, .ret true⟩, some [], j', [], []⟩ t := by
    intro t
    rw [hend, concludeListing, server_waitFor, List.filterMap_map, Function.id_comp,
      List.filterMap_some]
    rfl
  rw [Pair.retried_iff_of_returned hreturned ⟨rfl, rfl⟩, listing, hn]
  refine ⟨fun hd ↦ ?_, fun htake _ ↦ by rw [htake]⟩
  have hlist := (List.cons_inj_right _).mp (hd ⟨⟨true, rfl⟩, rfl⟩)
  exact List.map_injective_iff.mpr (fun a b hab ↦ by cases hab; rfl) hlist

/-- A list of which something is lost leaves the server waiting. -/
theorem failingListing_stranded (hlist : h'.getFileInfoList = .ok entries) {n : UInt32}
    (hn : UInt32.ofNat entries.length = n) (hfs : true ∈ fs.take n.toNat) :
    ¬ (failingListing h h' fs).Retried (sendingLink isFileData) d E := by
  have hlen : (entries.take n.toNat).length = n.toNat :=
    List.length_take_of_le (hn ▸ toNat_ofNat_le _)
  have hcount : (sieved fs (entries.take n.toNat)).countP Option.isSome < _ :=
    countP_sieved_lt (hlen.symm ▸ hfs)
  obtain ⟨j', hend⟩ := failingListing_answered h fs hlist hn
  rw [decide_eq_false (hcount.trans_eq hlen).ne] at hend
  refine Pair.not_retried (fun t ↦ (hend t).trans (server_relists hlist)) ?_
  exact .inl ⟨⟨⟨Kind.ack, _, rfl⟩, rfl⟩, true, rfl⟩

end Listing

/-- A listing is retried until the client has received the list. -/
def ListingRetried (h : Client.Host) (h' : FileHost) (entries : List FileData)
    (fails : List Bool) : Prop :=
  (failingListing h h' fails).Retried (sendingLink isFileData) ⟨Kind.ack, ⟨true⟩⟩
    fun s ↦ s.received = listing entries

/-- **A listing is retried exactly if the number of files fits its counter and nothing is lost.** -/
theorem listing_retried_iff {h : Client.Host} {h' : FileHost} {entries : List FileData}
    (hlist : h'.getFileInfoList = .ok entries) (fails : List Bool) :
    ListingRetried h h' entries fails ↔
      entries.length < 2 ^ 32 ∧ true ∉ fails.take entries.length := by
  have hle := toNat_ofNat_le entries.length
  by_cases hfails : true ∈ fails.take (UInt32.ofNat entries.length).toNat
  · refine iff_of_false (failingListing_stranded hlist rfl hfails) fun hc ↦ hc.2 ?_
    exact (List.take_subset_take_left fails hle) hfails
  · rw [ListingRetried, failingListing_received hlist rfl hfails, List.take_eq_self_iff]
    constructor
    · intro hlen
      have heq : (UInt32.ofNat entries.length).toNat = entries.length := le_antisymm hle hlen
      exact ⟨heq ▸ UInt32.toNat_lt _, heq ▸ hfails⟩
    · rintro ⟨hlt, -⟩
      rw [UInt32.toNat_ofNat', Nat.mod_eq_of_lt hlt]

/-! ## The three transfers

The three equivalences side by side, and a file of three bytes. -/

/-- **A transfer is retried exactly if it does not have to be.**  Whichever receives fail, an
upload, a download and a listing leave nobody waiting and end with the data received just when none
of the receives fails that the first attempt depends on.  Each of the three parts is about every
transfer of its kind: an upload need not replace a file, and the list may be empty. -/
theorem transfers_retried_iff (fails : List Bool) :
    (∀ (h : Client.Host) (h' : FileHost) (file : Name) (x : File) (p : Path),
      Upload h h' file x p →
        (UploadRetried h h' file x p fails ↔
          CountCovers x.size ∧ NothingLost (listedCount x.size) x.contents fails)) ∧
    (∀ (h : Client.Host) (h' : FileHost) (file path : Name) (x : File) (p : Path),
      Download h h' file path x p →
        (DownloadRetried h h' file path x p fails ↔
          listedCount x.size ≠ 0 ∧ CountCovers x.size ∧
            NothingLost (listedCount x.size) x.contents fails)) ∧
    (∀ (h : Client.Host) (h' : FileHost) (entries : List FileData),
      h'.getFileInfoList = .ok entries →
        (ListingRetried h h' entries fails ↔
          entries.length < 2 ^ 32 ∧ true ∉ fails.take entries.length)) :=
  ⟨fun _ _ _ _ _ up ↦ upload_retried_iff up fails,
    fun _ _ _ _ _ _ down ↦ download_retried_iff down fails,
    fun _ _ _ hlist ↦ listing_retried_iff hlist fails⟩

/-- The list of a server that has one file of three bytes. -/
theorem list_serverHas :
    (serverHas .threeBytes).2.getFileInfoList = .ok [⟨⟨['f'], 3, 0⟩, 1⟩] := by
  decide +kernel

/-- A file of three bytes that the receiver does not have is transferred while nothing fails, and
so is the list that names it. -/
theorem three_bytes_retried :
    UploadRetried (clientHas .threeBytes).1 (clientHas .threeBytes).2 ['f'] ⟨.threeBytes, 0⟩
        [['s'], ['f']] [false] ∧
      DownloadRetried (serverHas .threeBytes).1 (serverHas .threeBytes).2 ['f'] []
        ⟨.threeBytes, 0⟩ [['c'], ['f']] [false] ∧
      ListingRetried (serverHas .threeBytes).1 (serverHas .threeBytes).2 [⟨⟨['f'], 3, 0⟩, 1⟩]
        [false] := by
  obtain ⟨hup, hdown, hlist⟩ := transfers_retried_iff [false]
  refine ⟨?_, ?_, ?_⟩
  · exact (hup _ _ _ _ _ (upload_clientHas .threeBytes)).mpr
      ⟨by decide, .inr (.inr (by decide))⟩
  · exact (hdown _ _ _ _ _ _ (download_serverHas .threeBytes)).mpr
      ⟨by decide, by decide, .inr (.inr (by decide))⟩
  · exact (hlist _ _ _ list_serverHas).mpr ⟨by decide, by decide⟩

/-- If one receive fails, none of the three transfers is retried. -/
theorem one_failure_strands :
    ¬ UploadRetried (clientHas .threeBytes).1 (clientHas .threeBytes).2 ['f'] ⟨.threeBytes, 0⟩
        [['s'], ['f']] [true] ∧
      ¬ DownloadRetried (serverHas .threeBytes).1 (serverHas .threeBytes).2 ['f'] []
        ⟨.threeBytes, 0⟩ [['c'], ['f']] [true] ∧
      ¬ ListingRetried (serverHas .threeBytes).1 (serverHas .threeBytes).2 [⟨⟨['f'], 3, 0⟩, 1⟩]
        [true] := by
  have hlost : ¬ NothingLost (listedCount 3) .threeBytes [true] := by
    rintro (h | h | h)
    · exact absurd h (by decide)
    · rw [length_packetsOf] at h
      exact absurd h (by decide)
    · exact absurd h (by decide)
  refine ⟨fun h ↦ ?_, fun h ↦ ?_, fun h ↦ ?_⟩
  · exact hlost ((upload_retried_iff (upload_clientHas .threeBytes) [true]).mp h).2
  · exact hlost ((download_retried_iff (download_serverHas .threeBytes) [true]).mp h).2.2
  · exact ((listing_retried_iff list_serverHas [true]).mp h).2 (by decide)

end Bropdox
