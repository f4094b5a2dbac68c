import Bropdox.Chunks
import Bropdox.Peers

/-!
# One transfer

A transfer is the same exchange in both directions: the sender announces a packet count and sends
what it cut the file into, the receiver reads as many packets as were announced, acknowledges and
writes.  Nothing is assumed about the count here.

## What is here

* `upload_refused`, `upload_stored` and `upload_starved` follow an upload for the three ways the
  announced count can relate to the number of packets: none, not too many, too many.
  `upload_stored` says what is written, and what is left behind in the channel when fewer packets
  are announced than sent.
* `request_endsIn` is the request with which downloads and deletions start.
* `download_unreadable`, `download_undescribed` and `download_absent` are the downloads that come to
  nothing because of the server's files.
* `download_refused`, `download_stored` and `download_starved` are the three ways of the count once
  more.
-/

set_option autoImplicit false

namespace Bropdox

open FileSystem Session Program SocketHandler

namespace Peers

section Upload

variable {α β : Type} {h : Client.Host} {h' : FileHost} {m m' : List (Parcel sessionWire)}
  {t : PeerPair α β} {file : Name} {read : ReadResult} {info : FileInfo}
  {k : Bool → Client.Prog α} {k' : Bool → RequestHandler.Prog β}

/-- The server waits for the announcement of an upload. -/
def expectUpload (k' : Bool → RequestHandler.Prog β) : RequestHandler.Prog β :=
  (RequestHandler.waitFor .fileData).bind fun fileData ↦
    (RequestHandler.receiveAnnounced fileData).bind k'

/-- The request of an upload, in the form the rules below have. -/
theorem handleRequest_receive : RequestHandler.handleRequest .receive = expectUpload .ret := by
  simp only [RequestHandler.handleRequest, expectUpload, bind_eq, bind_ret]

theorem expectUpload_bind {γ : Type} (k' : Bool → RequestHandler.Prog β)
    (f : β → RequestHandler.Prog γ) :
    (expectUpload k').bind f = expectUpload fun accepted ↦ (k' accepted).bind f := by
  simp only [expectUpload, bind_assoc]

/-- An upload announced with no packets is refused, and nothing is left behind. -/
theorem upload_refused (hread : h.files.readFile file = .ok read)
    (hinfo : h.files.getFileInfo file = .ok info)
    (hzero : UInt32.ofNat read.fileSizeInPackets = 0) :
    Pair.EndsIn peers ⟨⟨h, (Client.sendFile file).bind k⟩, ⟨h', expectUpload k'⟩,
        some [], some [], m, m'⟩ t ↔
      Pair.EndsIn peers ⟨⟨h, k false⟩, ⟨h', k' false⟩, some [], some [], m, m'⟩ t := by
  simp only [Client.sendFile, bind_eq, bind_assoc]
  rw [left_query (FileOp.exec_readFile hread), left_query (FileOp.exec_getFileInfo hinfo)]
  simp [expectUpload, RequestHandler.waitFor, RequestHandler.receiveAnnounced, Client.waitAck,
    hzero]

/-- An upload that is announced with a positive count has its packets sent. -/
theorem upload_sent (hread : h.files.readFile file = .ok read)
    (hinfo : h.files.getFileInfo file = .ok info)
    (hpos : UInt32.ofNat read.fileSizeInPackets ≠ 0) :
    Pair.EndsIn peers ⟨⟨h, (Client.sendFile file).bind k⟩, ⟨h', expectUpload k'⟩,
        some [], some [], m, m'⟩ t ↔
      Pair.EndsIn peers ⟨⟨h, (Client.concludeUpload file).bind k⟩,
        ⟨h', (RequestHandler.receiveFile info.name (.ofNat read.fileSizeInPackets)).bind
          fun _ ↦ k' true⟩,
        some [], some (read.packets.map (parcel .packet)), m, m'⟩ t := by
  simp only [Client.sendFile, bind_eq, bind_assoc]
  rw [left_query (FileOp.exec_readFile hread), left_query (FileOp.exec_getFileInfo hinfo)]
  simp [expectUpload, RequestHandler.waitFor, RequestHandler.receiveAnnounced, Client.waitAck, hpos,
    left_sendPackets]

/-- **An upload that is not announced with too many packets** is acknowledged; as many packets as
were announced are written, and the others stay in the channel. -/
theorem upload_stored (hread : h.files.readFile file = .ok read)
    (hinfo : h.files.getFileInfo file = .ok info)
    (hpos : UInt32.ofNat read.fileSizeInPackets ≠ 0) {n : Nat}
    (hn : (UInt32.ofNat read.fileSizeInPackets).toNat = n) (hle : n ≤ read.packets.length) :
    Pair.EndsIn peers ⟨⟨h, (Client.sendFile file).bind k⟩, ⟨h', expectUpload k'⟩,
        some [], some [], m, m'⟩ t ↔
      Pair.EndsIn peers ⟨⟨h, (Client.keepUnlessSyncing file).bind fun _ ↦ k true⟩,
        ⟨h'.store info.name [] (read.packets.take n), k' true⟩,
        some [], some ((read.packets.drop n).map (parcel .packet)), m, m'⟩ t := by
  have hlen : (read.packets.take n).length = n := by rw [List.length_take, Nat.min_eq_left hle]
  rw [upload_sent hread hinfo hpos]
  simp only [RequestHandler.receiveFile, hn, bind_eq, bind_assoc]
  rw [right_waitAll .packet _ hle, countP_some, hlen, if_pos rfl]
  simp only [bind_assoc]
  rw [right_file (o := .writeFile ..) (FileHost.writeFile_some ..)]
  simp [Client.concludeUpload, Client.waitAck]

/-- An upload that is announced with too many packets leaves both sides waiting. -/
theorem upload_starved (hread : h.files.readFile file = .ok read)
    (hinfo : h.files.getFileInfo file = .ok info)
    (hlt : read.packets.length < (UInt32.ofNat read.fileSizeInPackets).toNat) :
    ∃ t, Pair.EndsIn peers ⟨⟨h, (Client.sendFile file).bind k⟩, ⟨h', expectUpload k'⟩,
        some [], some [], m, m'⟩ t ∧ (∀ a, t.left.prog ≠ .ret a) ∧ ∀ b, t.right.prog ≠ .ret b := by
  have hpos : UInt32.ofNat read.fileSizeInPackets ≠ 0 := by
    intro h0
    rw [h0] at hlt
    simp at hlt
  simp only [upload_sent hread hinfo hpos, RequestHandler.receiveFile, bind_eq, bind_assoc]
  obtain ⟨q, hq⟩ := right_waitMore .packet read.packets hlt _
  refine ⟨_, (hq _).mpr ⟨.refl, Pair.terminal_of_stuck rfl rfl⟩, ?_, ?_⟩
  · intro a ha
    cases ha
  · intro b hb
    cases hb

end Upload

section Download

variable {α β : Type} {h : Client.Host} {h' : FileHost} {m m' : List (Parcel sessionWire)}
  {t : PeerPair α β} {file name path : Name} {read : ReadResult} {info : FileInfo}
  {k : Bool → Client.Prog α} {k' : Unit → RequestHandler.Prog β}

/-- The request with which downloads and deletions start. -/
theorem request_endsIn (hinfo : h.files.getFileInfo file = .ok info) {k : Unit → Client.Prog α}
    {q : FileData → RequestHandler.Prog β} :
    Pair.EndsIn peers ⟨⟨h, (Client.file (.getFileInfo file)).bind fun info ↦
        (sendPacket .fileData ⟨info, 0⟩).bind k⟩,
        ⟨h', (RequestHandler.waitFor .fileData).bind q⟩, some [], some [], m, m'⟩ t ↔
      Pair.EndsIn peers ⟨⟨h, k ()⟩, ⟨h', q ⟨info, 0⟩⟩, some [], some [], m, m'⟩ t := by
  rw [left_query (FileOp.exec_getFileInfo hinfo)]
  simp [RequestHandler.waitFor]

/-- A file that cannot be read, though it is there, ends the request handler. -/
theorem download_unreadable {e : Exn} (hread : h'.readFile name = .error e)
    (he : e ≠ .fileDoesNotExist) {l : Endpoint sessionWire Client.sig α}
    {i j : Inbox sessionWire} :
    Pair.EndsIn peers ⟨l, ⟨h', (RequestHandler.sendFile name).bind k'⟩, i, j, m, m'⟩ t ↔
      Pair.EndsIn peers ⟨l, ⟨h', .throw e⟩, i, j, m, m'⟩ t := by
  simp only [RequestHandler.sendFile, bind_eq, bind_assoc]
  rw [right_attempt_error (FileOp.exec_readFile_error hread)]
  cases e <;> first | exact absurd rfl he | rfl

/-- A file that can be read and cannot be described ends the request handler as well. -/
theorem download_undescribed {e : Exn} (hread : h'.readFile name = .ok read)
    (hinfo : h'.getFileInfo name = .error e) {l : Endpoint sessionWire Client.sig α}
    {i j : Inbox sessionWire} :
    Pair.EndsIn peers ⟨l, ⟨h', (RequestHandler.sendFile name).bind k'⟩, i, j, m, m'⟩ t ↔
      Pair.EndsIn peers ⟨l, ⟨h', .throw e⟩, i, j, m, m'⟩ t := by
  simp only [RequestHandler.sendFile, bind_eq, bind_assoc]
  rw [right_attempt (FileOp.exec_readFile hread)]
  simp only [bind_assoc]
  rw [right_file_error (FileOp.exec_getFileInfo_error hinfo)]

/-- A file the server does not have is answered with no packets. -/
theorem download_absent (hread : h'.readFile name = .error .fileDoesNotExist) :
    Pair.EndsIn peers ⟨⟨h, (Client.receiveRequested file path).bind k⟩,
        ⟨h', (RequestHandler.sendFile name).bind k'⟩, some [], some [], m, m'⟩ t ↔
      Pair.EndsIn peers ⟨⟨h, Client.resetUnlessSyncing.bind fun _ ↦ k false⟩, ⟨h', k' ()⟩,
        some [], some [], m, m'⟩ t := by
  simp only [RequestHandler.sendFile, bind_eq, bind_assoc]
  rw [right_attempt_error (FileOp.exec_readFile_error hread)]
  simp [Client.receiveRequested]

/-- A file that is announced has its packets sent. -/
theorem download_sent (hread : h'.readFile name = .ok read)
    (hinfo : h'.getFileInfo name = .ok info) :
    Pair.EndsIn peers ⟨⟨h, (Client.receiveRequested file path).bind k⟩,
        ⟨h', (RequestHandler.sendFile name).bind k'⟩, some [], some [], m, m'⟩ t ↔
      Pair.EndsIn peers ⟨⟨h, (Client.receiveRequested file path).bind k⟩,
        ⟨h', (RequestHandler.waitFor .ack).bind fun ack ↦
          (RequestHandler.resendUnless ack.confirmation name).bind k'⟩,
        some (parcel .fileData ⟨info, .ofNat read.fileSizeInPackets⟩ ::
          read.packets.map (parcel .packet)), some [], m, m'⟩ t := by
  simp only [RequestHandler.sendFile, bind_eq, bind_assoc]
  rw [right_attempt (FileOp.exec_readFile hread)]
  simp only [bind_assoc]
  rw [right_file (FileOp.exec_getFileInfo hinfo)]
  simp [right_sendPackets]

/-- **A download that is not announced with too many packets**: as many packets as were announced
are written, and the others stay in the channel. -/
theorem download_stored (hread : h'.readFile name = .ok read)
    (hinfo : h'.getFileInfo name = .ok info)
    (hpos : UInt32.ofNat read.fileSizeInPackets ≠ 0) {n : Nat}
    (hn : (UInt32.ofNat read.fileSizeInPackets).toNat = n) (hle : n ≤ read.packets.length) :
    Pair.EndsIn peers ⟨⟨h, (Client.receiveRequested file path).bind k⟩,
        ⟨h', (RequestHandler.sendFile name).bind k'⟩, some [], some [], m, m'⟩ t ↔
      Pair.EndsIn peers
        ⟨⟨{ h with files := h.files.store file path (read.packets.take n) },
          Client.resetUnlessSyncing.bind fun _ ↦ k true⟩, ⟨h', k' ()⟩,
        some ((read.packets.drop n).map (parcel .packet)), some [], m, m'⟩ t := by
  have hlen : (read.packets.take n).length = n := by rw [List.length_take, Nat.min_eq_left hle]
  rw [download_sent hread hinfo]
  simp only [Client.receiveRequested, bind_eq, bind_assoc, left_wait, expect_some, ret_bind,
    if_neg hpos, hn]
  rw [left_waitAll .packet _ hle, countP_some, hlen, if_pos rfl]
  simp only [bind_assoc, left_send, discard_eq, deliver_some, List.nil_append]
  rw [left_file (o := .writeFile ..) (FileHost.writeFile_some ..)]
  simp [RequestHandler.waitFor, RequestHandler.resendUnless]

/-- A download that is announced with no packets is given up by the client alone. -/
theorem download_refused (hread : h'.readFile name = .ok read)
    (hinfo : h'.getFileInfo name = .ok info)
    (hzero : UInt32.ofNat read.fileSizeInPackets = 0) :
    Pair.EndsIn peers ⟨⟨h, (Client.receiveRequested file path).bind k⟩,
        ⟨h', (RequestHandler.sendFile name).bind k'⟩, some [], some [], m, m'⟩ t ↔
      Pair.EndsIn peers ⟨⟨h, Client.resetUnlessSyncing.bind fun _ ↦ k false⟩,
        ⟨h', (RequestHandler.waitFor .ack).bind fun ack ↦
          (RequestHandler.resendUnless ack.confirmation name).bind k'⟩,
        some (read.packets.map (parcel .packet)), some [], m, m'⟩ t := by
  rw [download_sent hread hinfo]
  simp [Client.receiveRequested, hzero]

/-- A download that is announced with too many packets leaves both sides waiting. -/
theorem download_starved (hread : h'.readFile name = .ok read)
    (hinfo : h'.getFileInfo name = .ok info)
    (hlt : read.packets.length < (UInt32.ofNat read.fileSizeInPackets).toNat) :
    ∃ t, Pair.EndsIn peers ⟨⟨h, (Client.receiveRequested file path).bind k⟩,
        ⟨h', (RequestHandler.sendFile name).bind k'⟩, some [], some [], m, m'⟩ t ∧
      (∀ a, t.left.prog ≠ .ret a) ∧ ∀ b, t.right.prog ≠ .ret b := by
  have hpos : UInt32.ofNat read.fileSizeInPackets ≠ 0 := by
    intro h0
    rw [h0] at hlt
    simp at hlt
  simp only [download_sent hread hinfo]
  simp only [Client.receiveRequested, bind_eq, bind_assoc, left_wait, expect_some, ret_bind,
    if_neg hpos]
  obtain ⟨q, hq⟩ := left_waitMore .packet read.packets hlt _
  refine ⟨_, (hq _).mpr ⟨.refl, Pair.terminal_of_stuck rfl rfl⟩, ?_, ?_⟩
  · intro a ha
    cases ha
  · intro b hb
    cases hb

end Download
end Peers
end Bropdox
