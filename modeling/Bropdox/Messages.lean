import Bropdox.Session.Step
import Bropdox.FileSystem.Machine

/-!
# The messages

The structures of `util/Messages.hpp` and `util/FileData.hpp`, and the two wires they travel on.

## What is here

* Every `struct` of the source is a structure of its own here, from `SockAddr` and `FileInfo` to
  `Address`, and every enumeration an inductive type.
* `Kind` has one constructor for each type that `send_packet` and `wait_packet` are instantiated
  with.  A datagram carries no tag on the real wire, so the kind is what the *sender* sent, and
  whether a `wait_packet<T>` reads it as that is a property to be proved.
* `sessionWire` and `groupWire` share these messages.  Between a client and its request handler the
  only correspondent is the peer, so there is nothing to address; between replica managers a socket
  hears from many, and the addresses are those of `sockaddr_in`.
* `Exn` are the exceptions and crashes of the source.

The character arrays of the source are strings of any length here (a name that does not fit its
array overflows it there), and the text form of a time, which nothing reads, is left out.
-/

set_option autoImplicit false

namespace Bropdox

open FileSystem Session

/-- `PACKETSIZE` -/
def packetSize : Nat := 16384

/-- `req` -/
inductive Req
  | sync | send | receive | del | login | list | close | fe
deriving DecidableEq

/-- `serv_req` -/
inductive ServReq
  | sync | alive | clientLogin | propagateLogin | election | newMember | requestEntrance
  | newFrontEnd
deriving DecidableEq

/-- `inotify::Event` -/
inductive Event
  | access | attrib | closeWrite | closeNowrite | close | create | remove | removeSelf | modify
  | moveSelf | movedFrom | movedTo | move | open | isDir | unmount | qOverflow | ignored | oneshot
  | all
deriving DecidableEq

/-- `sockaddr_in` -/
structure SockAddr where
  /-- `sin_addr` -/
  addr : UInt32 := 0
  /-- `sin_port` -/
  port : UInt16 := 0
deriving DecidableEq

/-- `file_info` -/
structure FileInfo where
  /-- `name` -/
  name : Name := []
  /-- `size` -/
  size : Nat := 0
  /-- `modified_time` -/
  modifiedTime : Int := 0
deriving DecidableEq

/-- `file_data_t` -/
structure FileData where
  /-- `file` -/
  file : FileInfo := {}
  /-- `num_packets` -/
  numPackets : UInt32 := 0
deriving DecidableEq

/-- `file_event_t` -/
structure FileEvent where
  /-- `file` -/
  file : FileInfo := {}
  /-- `event` -/
  event : Event := .close
deriving DecidableEq

/-- `handshake_t` -/
structure Handshake where
  /-- `req_type` -/
  reqType : Req
  /-- `userid` -/
  userid : Name := []
  /-- `device` -/
  device : UInt16 := 0
  /-- `fe_address` -/
  feAddress : SockAddr := {}
deriving DecidableEq

/-- `ack_t` -/
structure Ack where
  /-- `confirmation` -/
  confirmation : Bool
deriving DecidableEq

/-- `syn_t` -/
structure Syn where
  /-- `confirmation` -/
  confirmation : Bool
  /-- `port` -/
  port : UInt32
  /-- `device` -/
  device : UInt16
deriving DecidableEq

/-- `packet_t`; of the buffer only what was filled is kept. -/
structure Packet where
  /-- `num` -/
  num : UInt32
  /-- `data_size` -/
  dataSize : UInt32
  /-- `data` -/
  data : List UInt8
deriving DecidableEq

/-- `rm_syn_t` -/
structure RmSyn where
  /-- `id` -/
  id : UInt32
deriving DecidableEq

/-- `rm_operation_t` -/
structure RmOperation where
  /-- `req` -/
  req : ServReq
deriving DecidableEq

/-- `member_t` -/
structure Member where
  /-- `id` -/
  id : UInt32
  /-- `address` -/
  address : SockAddr
deriving DecidableEq

/-- `client_t` -/
structure ClientName where
  /-- `name` -/
  name : Name
deriving DecidableEq

/-- `address_t` -/
structure Address where
  /-- `address` -/
  address : SockAddr
deriving DecidableEq

/-- The types `wait_packet` and `send_packet` are instantiated with. -/
inductive Kind
  | handshake | ack | syn | packet | rmSyn | rmOperation | member | client | address | fileData
  | fileEvent
deriving DecidableEq

/-- The message of each kind. -/
@[reducible] def Kind.Msg : Kind → Type
  | handshake => Handshake
  | ack => Ack
  | syn => Syn
  | packet => Packet
  | rmSyn => RmSyn
  | rmOperation => RmOperation
  | member => Member
  | client => ClientName
  | address => Address
  | fileData => FileData
  | fileEvent => FileEvent

/-- The message of a kind that is all zeros. -/
def Kind.zero : (κ : Kind) → κ.Msg
  | handshake => ⟨.sync, [], 0, {}⟩
  | ack => ⟨false⟩
  | syn => ⟨false, 0, 0⟩
  | packet => ⟨0, 0, []⟩
  | rmSyn => ⟨0⟩
  | rmOperation => ⟨.sync⟩
  | member => ⟨0, {}⟩
  | client => ⟨[]⟩
  | address => ⟨{}⟩
  | fileData => {}
  | fileEvent => ⟨{}, .access⟩

/-- The wire between a client and its request handler, who only talk to each other. -/
@[reducible] def sessionWire : Wire where
  Kind := Kind
  Msg := Kind.Msg
  Addr := Unit

/-- The wire the servers and replica managers share. -/
@[reducible] def groupWire : Wire where
  Kind := Kind
  Msg := Kind.Msg
  Addr := SockAddr

/-- The exceptions and crashes of the source. -/
inductive Exn
  /-- `bdu::file_does_not_exist` -/
  | fileDoesNotExist
  /-- `boost::filesystem::filesystem_error` -/
  | filesystemError
  /-- `std::out_of_range` -/
  | outOfRange
  /-- `std::domain_error` -/
  | domainError
  /-- `std::invalid_argument`, or a pointer to one -/
  | invalidArgument
  /-- `bdu::socket_bad_bind` -/
  | socketBadBind
  /-- A null pointer is dereferenced. -/
  | nullPointer
deriving DecidableEq

end Bropdox
