import Bropdox.Client
import Bropdox.Session.Pair

/-!
# The request handler

`server/RequestHandler.cpp`: the server's side of every command.  The host of these programs is a
`FileHost`, since the handler changes nothing but files.

## What is here

* `receiveFile`, `sendFile`, `deleteFile` and `listFiles` are the functions of the source, with the
  retries of `send_file` and `list_files` at their ends (`resendUnless`, `relistUnless`).
* `receiveEvents` and `offerFiles` are the two loops of `syncServer`.
* `handleRequest` is `handle_request`, one program for each request.
* `body` says what the procedures stand for: the loop that receives the events, and the retries.
-/

set_option autoImplicit false

namespace Bropdox
namespace RequestHandler

open FileSystem Session Program SocketHandler

/-- The loops that have no bound of their own. -/
inductive Proc
  /-- The first loop of `sync_server`. -/
  | receiveEvents
  /-- `send_file`, which calls itself to try again. -/
  | sendFile (file : Name)
  /-- `list_files`, which calls itself to try again. -/
  | listFiles

/-- What a request handler runs on. -/
@[reducible] def sig : Sig where
  Host := FileHost
  Exn := Exn
  Op := FileOp
  Res := FileOp.Res
  exec := FileOp.exec
  Proc := Proc
  Out _ := Unit

/-- A program of the request handler. -/
abbrev Prog := Program sessionWire sig

/-- Call a member function of `file_handler`. -/
abbrev file (o : FileOp) : Prog o.Res := run (P := sig) o

/-- Run the first loop of `sync_server`. -/
def callReceiveEvents : Prog Unit := invoke (P := sig) .receiveEvents

/-- Call `send_file`. -/
def callSendFile (file : Name) : Prog Unit := invoke (P := sig) (.sendFile file)

/-- Call `list_files`. -/
def callListFiles : Prog Unit := invoke (P := sig) .listFiles

/-- Wait for a message and look at it without a check. -/
def waitFor (κ : Kind) : Prog κ.Msg := do
  let m ← waitPacket κ
  expect .nullPointer m

/-- `receive_file` -/
def receiveFile (file : Name) (packetsToBeReceived : UInt32) : Prog Unit := do
  let recvFile ← waitPackets .packet packetsToBeReceived.toNat
  if recvFile.countP Option.isSome = packetsToBeReceived.toNat then
    let write ← RequestHandler.file (.writeFile file recvFile [])
    sendPacket .ack ⟨write⟩
  else sendPacket .ack ⟨false⟩

/-- The end of `send_file`: without a positive acknowledgement it is done again. -/
def resendUnless (confirmation : Bool) (file : Name) : Prog Unit :=
  if !confirmation then callSendFile file else pure ()

/-- `send_file` -/
def sendFile (file : Name) : Prog Unit := do
  let read ← attempt (P := sig) (.readFile file)
  match read with
  | .error .fileDoesNotExist => sendPacket .fileData ⟨{}, 0⟩
  -- only `file_does_not_exist` and `ios::failure` are caught
  | .error e => throw e
  | .ok read =>
    let finfo ← RequestHandler.file (.getFileInfo file)
    sendPacket .fileData ⟨finfo, .ofNat read.fileSizeInPackets⟩
    sendPackets .packet read.packets
    let ack ← waitFor .ack
    resendUnless ack.confirmation file

/-- `delete_file` -/
def deleteFile (file : Name) : Prog Unit := do
  let deleted ← RequestHandler.file (.deleteFile file)
  if !deleted then sendPacket .ack ⟨false⟩ else sendPacket .ack ⟨true⟩

/-- The end of `list_files`: without a positive acknowledgement it is done again. -/
def relistUnless (confirmation : Bool) : Prog Unit :=
  if !confirmation then callListFiles else pure ()

/-- `list_files` -/
def listFiles : Prog Unit := do
  let fileInfoList ← RequestHandler.file .getFileInfoList
  sendPacket .fileData ⟨{}, .ofNat fileInfoList.length⟩
  sendPackets .fileData fileInfoList
  let ack ← waitFor .ack
  relistUnless ack.confirmation

/-- The reaction to an announced upload, the same in `handle_request` and in `sync_server`: whether
it was accepted. -/
def receiveAnnounced (fileData : FileData) : Prog Bool := do
  if ¬ fileData.numPackets > 0 then
    sendPacket .ack ⟨false⟩
    return false
  else
    sendPacket .ack ⟨true⟩
    receiveFile fileData.file.name fileData.numPackets
    return true

/-- The body of the first loop of `sync_server`, for an event that does not end it. -/
def receiveEvent (fileEvent : FileEvent) : Prog Unit :=
  match fileEvent.event with
  | .create | .modify => do
    let fresh ← RequestHandler.file (.checkFreshness fileEvent.file)
    sendPacket .ack ⟨fresh⟩
    if !fresh then pure ()
    else
      let fileData ← waitFor .fileData
      discard (receiveAnnounced fileData)
  | .remove => do
    sendPacket .ack ⟨true⟩
    let fileData ← waitFor .fileData
    deleteFile fileData.file.name
  | _ => pure ()

/-- The first loop of `sync_server`. -/
def receiveEvents : Prog Unit := do
  let fileEvent ← waitFor .fileEvent
  if fileEvent.event = .close then pure ()
  else
    receiveEvent fileEvent
    callReceiveEvents

/-- The second loop of `sync_server`. -/
def offerFiles : List FileData → Prog Unit
  | [] => pure ()
  | fileInfo :: allFiles => do
    sendPacket .fileData fileInfo
    let ack ← waitPacket .ack
    match ack with
    | none => pure ()
    | some ack =>
      if !ack.confirmation then pure ()
      else
        discard (waitPacket .fileData)
        callSendFile fileInfo.file.name
    offerFiles allFiles

/-- `sync_server` -/
def syncServer : Prog Unit := do
  callReceiveEvents
  let allFiles ← RequestHandler.file .getFileInfoList
  offerFiles allFiles
  sendPacket .fileData {}
  discard (waitPacket .ack)

/-- `handle_request` -/
def handleRequest : Req → Prog Bool
  | .sync => do
    syncServer
    return true
  | .send => do
    let fileData ← waitFor .fileData
    sendFile fileData.file.name
    return true
  | .receive => do
    let fileData ← waitFor .fileData
    receiveAnnounced fileData
  | .del => do
    let fileData ← waitFor .fileData
    deleteFile fileData.file.name
    return true
  | .list => do
    discard (waitPacket .ack)
    listFiles
    return true
  | _ => return false

/-- The bodies of the procedures. -/
def body : Bodies sessionWire sig
  | .receiveEvents => receiveEvents
  | .sendFile file => sendFile file
  | .listFiles => listFiles

end RequestHandler

/-- A client and its request handler, with the sockets they share. -/
@[reducible] def peers : Session.Link sessionWire Client.sig RequestHandler.sig where
  leftBody := Client.body
  rightBody := RequestHandler.body
  leftAddr := ()
  rightAddr := ()

end Bropdox
