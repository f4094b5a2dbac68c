import Bropdox.FileHandler
import Bropdox.OrderedMap
import Bropdox.Session.Pair

/-!
# The replica manager

`server/ReplicaManager.cpp`: how a backup joins (`makeBackup`), what a replica manager does with
what it hears (`listen`), and how the primary copies its files to the others (`sync`).

## What is here

* `Host` is the state of a replica manager, and `Op` what it does besides talking, with its meaning
  `Op.exec`.
* `receiveMembers`, `makeBackup` and `requestEntrance` are the two sides of a join.
* `receiveFile`, `receiveFiles`, `receiveClients` and `receiveSync` are the three nested loops in
  which a backup receives a synchronisation.
* `clientLogin`, `serve` and `listen` are the loop that reads requests, in which the others are
  cases.
* `sendFile`, `sendFiles`, `sendDirectories` and `sync` are the primary's side of a synchronisation.
* `body` says what the procedures stand for: the loops that have no bound of their own, which are
  `listen`, `receive_members`, and the two outer loops of a synchronisation.

All of it goes over one socket that hears from many.  A datagram is sent to an address, and the
source reads the sender of the last datagram off its socket; here it comes with the datagram where
the source looks at it.
-/

set_option autoImplicit false

namespace Bropdox

open FileSystem Session Program

/-- Identities are compared as the numbers they are. -/
instance linearOrderUInt32 : LinearOrder UInt32 where
  le_refl := UInt32.le_refl
  le_trans _ _ _ := UInt32.le_trans
  le_antisymm _ _ := UInt32.le_antisymm
  le_total := UInt32.le_total
  lt_iff_le_not_ge a b := by
    rw [UInt32.lt_iff_toNat_lt, UInt32.le_iff_toNat_le, UInt32.le_iff_toNat_le]
    omega
  toDecidableLE := inferInstance

namespace ReplicaManager

/-- The state of a replica manager. -/
structure Host where
  /-- `group` -/
  group : OrderedMap UInt32 SockAddr := .empty
  /-- `front_ends` -/
  frontEnds : List SockAddr := []
  /-- `id` -/
  id : UInt32 := 0
  /-- `primary` -/
  primary : Bool
  /-- The address of `sock_handler`. -/
  ownAddress : SockAddr
  /-- The address of `server`. -/
  serverAddress : SockAddr
  /-- `file_handler`, with the machine it works on. -/
  files : FileHost

/-- `make_primary`, with the addresses of its two sockets. -/
def makePrimary (ownAddress serverAddress : SockAddr) (files : FileHost) : Host where
  primary := true
  ownAddress := ownAddress
  serverAddress := serverAddress
  files := files

/-- The object `make_backup` constructs. -/
def newBackup (ownAddress serverAddress : SockAddr) (files : FileHost) : Host where
  primary := false
  ownAddress := ownAddress
  serverAddress := serverAddress
  files := files

/-- `client_name`: the directory name from its last underscore on.  With no underscore there is
`npos`, and `substr` throws. -/
def clientName (directoryName : Name) : Except Exn Name :=
  if '_' ∈ directoryName then
    .ok ('_' :: (directoryName.reverse.takeWhile (· ≠ '_')).reverse)
  else .error .outOfRange

/-- `"sync_dir"` -/
def syncDirPrefix : Name := ['s', 'y', 'n', 'c', '_', 'd', 'i', 'r']

/-- The sync directory a backup uses for the name it was sent. -/
def backupDir (name : Name) : Name := syncDirPrefix ++ name ++ ['/']

/-- The path strings `directory_iterator(".")` gives for the directories it visits. -/
def directories (h : FileHost) : Except Exn (List Name) :=
  match h.machine.list ['.'] with
  | some entries => .ok ((entries.filter h.machine.disk.isDir).map fun entry ↦
      ['.', '/'] ++ entry.getLast?.getD [])
  | none => .error .filesystemError

/-- `if (!bf::exists(sync_dir)) bf::create_directory(sync_dir);` -/
def ensureDirectory (h : FileHost) (syncDir : Name) : Except Exn FileHost :=
  if h.machine.exists syncDir then .ok h
  else match h.machine.createDirectory syncDir with
    | some m => .ok { h with machine := m }
    | none => .error .filesystemError

/-- What a replica manager does besides talking. -/
inductive Op
  /-- A call of `file_handler`. -/
  | file (o : FileOp)
  /-- Look at the state. -/
  | get
  /-- Assign to the state. -/
  | update (f : Host → Host)
  /-- The directories `directory_iterator(".")` visits. -/
  | directories
  /-- Make sure a directory exists. -/
  | ensureDirectory (syncDir : Name)

/-- The results of the operations. -/
@[reducible] def Op.Res : Op → Type
  | file o => o.Res
  | get => Host
  | update _ => Unit
  | directories => List Name
  | ensureDirectory _ => Unit

/-- The meaning of the operations. -/
def Op.exec : (o : Op) → Host → Except Exn (o.Res × Host)
  | file o, h => (o.exec h.files).map fun r ↦ (r.1, { h with files := r.2 })
  | get, h => .ok (h, h)
  | update f, h => .ok ((), f h)
  | directories, h => (ReplicaManager.directories h.files).map (·, h)
  | ensureDirectory syncDir, h =>
    (ReplicaManager.ensureDirectory h.files syncDir).map fun s ↦ ((), { h with files := s })

section File

variable {o : FileOp} {h : Host}

theorem Op.exec_file {v : o.Res} {s : FileHost} (ho : o.exec h.files = .ok (v, s)) :
    (file o).exec h = .ok (v, { h with files := s }) := by
  simp only [exec, ho, Except.map]

theorem Op.exec_file_error {e : Exn} (ho : o.exec h.files = .error e) :
    (file o).exec h = .error e := by
  simp only [exec, ho, Except.map]

end File

/-- The loops that have no bound of their own. -/
inductive Proc
  /-- `listen` -/
  | listen
  /-- The loop of `receive_members`; `peer` is who was last heard of. -/
  | receiveMembers (peer : SockAddr)
  /-- The loop over the clients of a synchronisation. -/
  | receiveClients
  /-- The loop over the files of one client. -/
  | receiveFiles (fileInfo : FileData)

/-- What a replica manager runs on. -/
@[reducible] def sig : Sig where
  Host := Host
  Exn := Exn
  Op := Op
  Res := Op.Res
  exec := Op.exec
  Proc := Proc
  Out
    | .listen => Unit
    | .receiveMembers _ => SockAddr
    | .receiveClients => Unit
    | .receiveFiles _ => Unit

/-- A program of a replica manager. -/
abbrev Prog := Program groupWire sig

/-- Call a member function of `file_handler`. -/
abbrev file (o : FileOp) : Prog o.Res := run (P := sig) (.file o)

/-- Look at the state. -/
def get : Prog Host := run (P := sig) .get

/-- Assign to the state. -/
def update (f : Host → Host) : Prog Unit := run (P := sig) (.update f)

/-- Go on with a result, or let the exception escape. -/
def orThrow {α : Type} : Except Exn α → Prog α
  | .ok a => .ret a
  | .error e => .throw e

/-- `file_handler.set_sync_dir(path)` -/
def setSyncDir (path : Name) : Prog Unit :=
  update fun h ↦ { h with files := { h.files with syncDir := path } }

/-- `group[member.id] = member.address` -/
def enroll (member : Member) : Prog Unit :=
  update fun h ↦ { h with group := h.group.assign member.id member.address }

/-- `send_packet` to an address. -/
abbrev sendTo (address : SockAddr) (κ : Kind) (m : κ.Msg) : Prog Unit :=
  emit (W := groupWire) address κ m

/-- `wait_packet` -/
abbrev waitPacket (κ : Kind) : Prog (Option κ.Msg) := await (W := groupWire) κ

/-- `wait_packet`, looked at without a check. -/
def waitFor (κ : Kind) : Prog κ.Msg := do
  let m ← waitPacket κ
  expect .nullPointer m

/-- The loop of `multicast_packet`. -/
def sendToAll (κ : Kind) (m : κ.Msg) : List SockAddr → Prog Unit
  | [] => pure ()
  | address :: addresses => do
    sendTo address κ m
    sendToAll κ m addresses

/-- `multicast_packet(&m, group)` -/
def multicast (κ : Kind) (m : κ.Msg) : Prog Unit := do
  let h ← get
  sendToAll κ m h.group.values

/-! ## Joining

The newcomer's `make_backup` and `receive_members`, and the primary's `request_entrance`. -/

/-- Run the loop of `receive_members`. -/
def callReceiveMembers (peer : SockAddr) : Prog SockAddr := invoke (P := sig) (.receiveMembers peer)

/-- The loop of `receive_members`. -/
def receiveMembers (peer : SockAddr) : Prog SockAddr := do
  let r ← awaitFrom (W := groupWire) .member
  match r with
  | some (address, member) =>
    if member.id ≠ 0 then
      enroll member
      callReceiveMembers address
    else return address
  | none => return peer

/-- `make_backup`, once the object is constructed; the socket is set up to talk to the primary. -/
def makeBackup (primaryAddress : SockAddr) : Prog Bool := do
  sendTo primaryAddress .rmOperation ⟨.requestEntrance⟩
  let r ← awaitFrom (W := groupWire) .rmSyn
  match r with
  | some (address, pack) =>
    update fun h ↦ { h with id := pack.id }
    let peer ← callReceiveMembers address
    sendTo peer .ack ⟨true⟩
    return true
  | none => return false

/-- The loop of `request_entrance` over the members of the group. -/
def sendMembers (address : SockAddr) : List (UInt32 × SockAddr) → Prog Unit
  | [] => pure ()
  | member :: members => do
    sendTo address .member ⟨member.1, member.2⟩
    sendMembers address members

/-- `case bdu::serv_req::request_entrance`; whether `listen` goes on. -/
def requestEntrance (address : SockAddr) : Prog Bool := do
  let h ← get
  if h.primary then
    let newId : UInt32 := .ofNat (h.group.size + 1)
    sendTo address .rmSyn ⟨newId⟩
    sendMembers address h.group.entries
    sendTo address .member ⟨0, {}⟩
    let newMemberAck ← waitPacket .ack
    match newMemberAck with
    | none => return false
    | some _ =>
      multicast .rmOperation ⟨.newMember⟩
      -- the identity the others are told is the primary's own
      multicast .member ⟨h.id, address⟩
      enroll ⟨newId, address⟩
      return true
  else return true

/-! ## Receiving a synchronisation

The `sync` case of `listen`: users until there is no further one, files of a user until there is no
further one, packets of a file by their number. -/

/-- Run the loop over the clients. -/
def callReceiveClients : Prog Unit := invoke (P := sig) .receiveClients

/-- Run the loop over the files of a client. -/
def callReceiveFiles (fileInfo : FileData) : Prog Unit := invoke (P := sig) (.receiveFiles fileInfo)

/-- `receive_file` -/
def receiveFile (file : Name) (packetsToBeReceived : UInt32) : Prog Unit := do
  let recvFile ← awaitAll (W := groupWire) .packet packetsToBeReceived.toNat
  if recvFile.countP Option.isSome = packetsToBeReceived.toNat then
    discard (ReplicaManager.file (.writeFile file recvFile []))
  else pure ()

/-- The loop over the files of a client. -/
def receiveFiles (fileInfo : FileData) : Prog Unit := do
  receiveFile fileInfo.file.name fileInfo.numPackets
  let next ← waitPacket .fileData
  match next with
  | some next => if next.numPackets ≠ 0 then callReceiveFiles next else pure ()
  | none => pure ()

/-- The loop over the clients. -/
def receiveClients : Prog Unit := do
  let client ← waitPacket .client
  match client with
  | some client =>
    if client.name ≠ [] then
      discard (run (P := sig) (.ensureDirectory (backupDir client.name)))
      setSyncDir (backupDir client.name)
      let fileInfo ← waitFor .fileData
      callReceiveFiles fileInfo
      callReceiveClients
    else pure ()
  | none => pure ()

/-- `case bdu::serv_req::sync` -/
def receiveSync : Prog Unit := do
  let h ← get
  if !h.primary then
    callReceiveClients
    setSyncDir ['.', '/']
  else pure ()

/-! ## Listening

The switch of `listen`, with the cases that are not a join or a synchronisation. -/

/-- `case bdu::serv_req::client_login` -/
def clientLogin : Prog Unit := do
  let hand ← waitPacket .handshake
  let h ← get
  if h.primary then
    let hand ← expect .nullPointer hand
    if hand.reqType = .fe then
      update fun h ↦ { h with frontEnds := h.frontEnds ++ [hand.feAddress] }
      sendTo hand.feAddress .address ⟨h.ownAddress⟩
      multicast .rmOperation ⟨.newFrontEnd⟩
      multicast .handshake hand
    else if hand.reqType = .login then
      multicast .rmOperation ⟨.propagateLogin⟩
      multicast .handshake hand
    else pure ()
  else discard (waitPacket .syn)

/-- The switch of `listen`; whether it goes on. -/
def serve (address : SockAddr) : ServReq → Prog Bool
  | .alive => do
    let h ← get
    if h.primary then sendTo address .rmOperation ⟨.alive⟩ else pure ()
    return true
  | .newMember => do
    let member ← waitFor .member
    enroll member
    return true
  | .election => return true
  | .requestEntrance => requestEntrance address
  | .sync => do
    receiveSync
    return true
  | .clientLogin => do
    clientLogin
    return true
  | .propagateLogin => do
    let h ← get
    if !h.primary then
      let hand ← waitPacket .handshake
      match hand with
      | some hand => sendTo h.serverAddress .handshake hand
      | none => pure ()
    else pure ()
    return true
  | .newFrontEnd => do
    let h ← get
    if !h.primary then
      let hand ← waitFor .handshake
      update fun h ↦ { h with frontEnds := h.frontEnds ++ [hand.feAddress] }
    else pure ()
    return true

/-- Run `listen`. -/
def callListen : Prog Unit := invoke (P := sig) .listen

/-- `listen` -/
def listen : Prog Unit := do
  let r ← awaitFrom (W := groupWire) .rmOperation
  let r ← expect .nullPointer r
  let on ← serve r.1 r.2.req
  if on then callListen else pure ()

/-! ## Synchronising

What the primary sends, directory by directory. -/

/-- The loop around `multicast_packet` in `send_file`. -/
def multicastPackets : List Packet → Prog Unit
  | [] => pure ()
  | packet :: packets => do
    multicast .packet packet
    multicastPackets packets

/-- `send_file` -/
def sendFile (file : Name) : Prog Unit := do
  let read ← ReplicaManager.file (.readFile file)
  let finfo ← ReplicaManager.file (.getFileInfo file)
  multicast .fileData ⟨finfo, .ofNat read.fileSizeInPackets⟩
  multicastPackets read.packets

/-- The loop of `sync` over the files of a directory. -/
def sendFiles : List FileData → Prog Unit
  | [] => pure ()
  | fileInfo :: allFiles => do
    multicast .fileData fileInfo
    sendFile fileInfo.file.name
    sendFiles allFiles

/-- The body of the loop of `sync` over the directories. -/
def sendDirectory (path : Name) : Prog Unit := do
  let clientName ← orThrow (clientName (filename path))
  multicast .client ⟨clientName⟩
  setSyncDir path
  let allFiles ← ReplicaManager.file .getFileInfoList
  sendFiles allFiles
  multicast .fileData {}

/-- The loop of `sync` over the directories. -/
def sendDirectories : List Name → Prog Unit
  | [] => pure ()
  | path :: paths => do
    sendDirectory path
    sendDirectories paths

/-- `sync` -/
def sync : Prog Unit := do
  multicast .rmOperation ⟨.sync⟩
  let paths ← run (P := sig) .directories
  sendDirectories paths
  multicast .client ⟨[]⟩

/-- The bodies of the procedures. -/
def body : Bodies groupWire sig
  | .listen => listen
  | .receiveMembers peer => receiveMembers peer
  | .receiveClients => receiveClients
  | .receiveFiles fileInfo => receiveFiles fileInfo

end ReplicaManager
end Bropdox
