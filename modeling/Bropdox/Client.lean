import Bropdox.FileHandler

/-!
# The client

`client/Client.cpp`, from the point where `send_handshake` has succeeded: the five programs a
command or a synchronisation runs over `sock_handler_req`.

## What is here

* `Host` is the state of a client between two datagrams, and `Op` what it does besides talking.
* `sendFile`, `getFile`, `deleteFile`, `listServerFiles` and `syncClient` are the five programs;
  `sendEvents` and `receiveFiles` are the two loops of the last.
* `resetUnlessSyncing` and `keepUnlessSyncing` are the ends that several of them have in common.
* `body` says what the procedures stand for: the loops without a bound of their own, which are the
  second half of `sync_client` and the retry of `send_file`.

`sock_handler_req.reset()` is `shut`, and every other use of the socket is a datagram sent or
awaited.  A `wait_packet` that fails gives a null pointer; where the source dereferences it without
looking, so does `expect`.
-/

set_option autoImplicit false

namespace Bropdox

open FileSystem Session Program

namespace SocketHandler

/-- Send a message to the peer, as `SocketHandler::send_packet` does. -/
abbrev sendPacket {P : Sig} (κ : Kind) (m : κ.Msg) : Program sessionWire P Unit :=
  emit (W := sessionWire) () κ m

/-- Wait for a message of the peer, as `SocketHandler::wait_packet` does. -/
abbrev waitPacket {P : Sig} (κ : Kind) : Program sessionWire P (Option κ.Msg) :=
  await (W := sessionWire) κ

/-- The loop around `send_packet`. -/
def sendPackets {P : Sig} (κ : Kind) : List κ.Msg → Program sessionWire P Unit
  | [] => pure ()
  | m :: ms => do
    sendPacket κ m
    sendPackets κ ms

/-- The loop around `wait_packet`: one slot for each announced message. -/
abbrev waitPackets {P : Sig} (κ : Kind) (n : Nat) :
    Program sessionWire P (List (Option κ.Msg)) :=
  awaitAll (W := sessionWire) κ n

end SocketHandler

namespace Client

open SocketHandler

/-- The state of a client between two datagrams. -/
structure Host where
  /-- `file_handler`, with the machine it works on. -/
  files : FileHost
  /-- `syncing` -/
  syncing : Bool

/-- What the client does besides talking. -/
inductive Op
  /-- A call of `file_handler`. -/
  | file (o : FileOp)
  /-- `this->syncing` -/
  | isSyncing
  /-- `this->syncing = b` -/
  | setSyncing (b : Bool)

/-- The results of the operations. -/
@[reducible] def Op.Res : Op → Type
  | file o => o.Res
  | isSyncing => Bool
  | setSyncing _ => Unit

/-- The meaning of the operations. -/
def Op.exec : (o : Op) → Host → Except Exn (o.Res × Host)
  | file o, h => (o.exec h.files).map fun r ↦ (r.1, { h with files := r.2 })
  | isSyncing, h => .ok (h.syncing, h)
  | setSyncing b, h => .ok ((), { h with syncing := b })

section File

variable {o : FileOp} {h h' : Host}

theorem Op.exec_file {v : o.Res} {s : FileHost} (ho : o.exec h.files = .ok (v, s)) :
    (file o).exec h = .ok (v, { h with files := s }) := by
  simp only [exec, ho, Except.map]

theorem Op.exec_file_error {e : Exn} (ho : o.exec h.files = .error e) :
    (file o).exec h = .error e := by
  simp only [exec, ho, Except.map]

theorem Op.of_exec_file {v : o.Res} (hx : (file o).exec h = .ok (v, h')) :
    ∃ s, o.exec h.files = .ok (v, s) ∧ h' = { h with files := s } := by
  simp only [exec] at hx
  cases hr : o.exec h.files with
  | error e =>
    rw [hr] at hx
    cases hx
  | ok r =>
    rw [hr] at hx
    cases hx
    exact ⟨r.2, rfl, rfl⟩

end File

/-- The loops that have no bound of their own. -/
inductive Proc
  /-- The second loop of `sync_client`. -/
  | receiveFiles
  /-- `send_file`, which calls itself to try again. -/
  | sendFile (file : Name)

/-- What the client runs on. -/
@[reducible] def sig : Sig where
  Host := Host
  Exn := Exn
  Op := Op
  Res := Op.Res
  exec := Op.exec
  Proc := Proc
  Out
    | .receiveFiles => Unit
    | .sendFile _ => Bool

/-- A client program. -/
abbrev Prog := Program sessionWire sig

/-- Call a member function of `file_handler`. -/
abbrev file (o : FileOp) : Prog o.Res := run (P := sig) (.file o)

/-- Read `this->syncing`. -/
def isSyncing : Prog Bool := run (P := sig) .isSyncing

/-- Write `this->syncing`. -/
def setSyncing (b : Bool) : Prog Unit := run (P := sig) (.setSyncing b)

/-- Run the second loop of `sync_client`. -/
def callReceiveFiles : Prog Unit := invoke (P := sig) .receiveFiles

/-- Call `send_file`. -/
def callSendFile (file : Name) : Prog Bool := invoke (P := sig) (.sendFile file)

/-- Wait for an acknowledgement and look at it. -/
def waitAck : Prog Bool := do
  let ack ← waitPacket .ack
  let ack ← expect .nullPointer ack
  return ack.confirmation

/-- `if (!this->syncing) this->sock_handler_req.reset();` -/
def resetUnlessSyncing : Prog Unit := do
  let syncing ← isSyncing
  if !syncing then shut else pure ()

/-- `if (!this->syncing) { copy_file_to_sync_dir(file); this->sock_handler_req.reset(); }` -/
def keepUnlessSyncing (file : Name) : Prog Unit := do
  let syncing ← isSyncing
  if !syncing then
    discard (Client.file (.copyFileToSyncDir file))
    shut
  else pure ()

/-- `send_file`, once the packets are sent. -/
def concludeUpload (file : Name) : Prog Bool := do
  let stored ← waitAck
  if !stored then discard (callSendFile file) else pure ()
  keepUnlessSyncing file
  return true

/-- `send_file` -/
def sendFile (file : Name) : Prog Bool := do
  let read ← Client.file (.readFile file)
  let info ← Client.file (.getFileInfo file)
  sendPacket .fileData ⟨info, .ofNat read.fileSizeInPackets⟩
  let accepted ← waitAck
  if !accepted then return false
  else
    sendPackets .packet read.packets
    concludeUpload file

/-- `get_file`, once the request is sent. -/
def receiveRequested (file path : Name) : Prog Bool := do
  let fileData ← waitPacket .fileData
  let fileData ← expect .nullPointer fileData
  if fileData.numPackets = 0 then
    resetUnlessSyncing
    return false
  else
    let recvFile ← waitPackets .packet fileData.numPackets.toNat
    if recvFile.countP Option.isSome = fileData.numPackets.toNat then
      sendPacket .ack ⟨true⟩
      discard (Client.file (.writeFile file recvFile path))
    else sendPacket .ack ⟨false⟩
    resetUnlessSyncing
    return true

/-- `get_file` -/
def getFile (file path : Name) : Prog Bool := do
  let info ← Client.file (.getFileInfo file)
  sendPacket .fileData ⟨info, 0⟩
  receiveRequested file path

/-- `delete_file` -/
def deleteFile (file : Name) : Prog Bool := do
  let info ← Client.file (.getFileInfo file)
  sendPacket .fileData ⟨info, 0⟩
  let syncing ← isSyncing
  let gone ← if !syncing then Client.file (.deleteFile file) else pure true
  -- with no such file here, the answer of the server is never waited for
  if !gone then return false
  else
    let deleted ← waitAck
    resetUnlessSyncing
    return deleted

/-- `list_server_files`, from the answer of the server on; what it prints is left out. -/
def receiveList (fileData : Option FileData) : Prog Bool := do
  let fileData ← expect .nullPointer fileData
  if fileData.numPackets = 0 then
    sendPacket .ack ⟨true⟩
    return true
  else
    let receivedFileData ← waitPackets .fileData fileData.numPackets.toNat
    if receivedFileData.countP Option.isSome = fileData.numPackets.toNat then
      sendPacket .ack ⟨true⟩
    else sendPacket .ack ⟨false⟩
    resetUnlessSyncing
    return true

/-- `list_server_files` -/
def listServerFiles : Prog Bool := do
  sendPacket .ack ⟨true⟩
  let fileData ← waitPacket .fileData
  receiveList fileData

/-- The body of the first loop of `sync_client`. -/
def sendEvent (event : FileEvent) : Prog Unit := do
  sendPacket .fileEvent event
  let wanted ← waitAck
  if !wanted then pure ()
  else match event.event with
    | .create | .modify => discard (callSendFile event.file.name)
    | .remove => discard (deleteFile event.file.name)
    | _ => pure ()

/-- The first loop of `sync_client`. -/
def sendEvents : List FileEvent → Prog Unit
  | [] => pure ()
  | event :: events => do
    sendEvent event
    sendEvents events

/-- The second loop of `sync_client`. -/
def receiveFiles : Prog Unit := do
  let finfo ← waitPacket .fileData
  match finfo with
  | some finfo =>
    if finfo.numPackets ≠ 0 then
      let fresh ← Client.file (.checkFreshness finfo.file)
      sendPacket .ack ⟨fresh⟩
      if fresh then discard (getFile finfo.file.name []) else pure ()
      callReceiveFiles
    else pure ()
  | none => pure ()

/-- `sync_client` -/
def syncClient (events : List FileEvent) : Prog Bool := do
  setSyncing true
  sendEvents events
  sendPacket .fileEvent {}
  callReceiveFiles
  sendPacket .ack ⟨true⟩
  setSyncing false
  return true

/-- The bodies of the procedures. -/
def body : Bodies sessionWire sig
  | .receiveFiles => receiveFiles
  | .sendFile file => sendFile file

end Client
end Bropdox
