import Bropdox.Layout
import Bropdox.Messages

/-!
# Messages as they are sent

`send_packet` sends the memory of a message and `wait_packet` receives into the memory of a new one,
so that the format of a datagram is the layout of a `struct`: the members of `util/Messages.hpp` and
`util/FileData.hpp` one behind another, each at an offset that is a multiple of its alignment, as on
x86-64.  There are 4 bytes in an `int` and in an enumeration, and 8 in a `uintmax_t` and a `time_t`.

## What is here

* `u16`, `u32`, `bool`, `time`, `text` and the enumerations are the layouts of the members
  (`Layout.lean`).
* There is one layout for each `struct`, under its name, and `Kind.layout` has them all; the sizes
  are checked against `sizeof` by evaluation.
* What nothing reads is a gap: the text form of a time, and what a `sockaddr_in` has beside address
  and port.
* `Storable` are the strings of bytes that leave room for their terminator, and `Kind.Fits` says of
  a message that it can be stored in its `struct`.
* `wire_round_trip`: a message that fits is received as it was sent, whatever is in the memory
  around it; what is received fits; and it would be sent as the same bytes.
* `announcement_round_trips` is the announcement of one file.
-/

set_option autoImplicit false

namespace Bropdox

open FileSystem Layout

namespace Image

/-! ## Members

The types that the members of the messages have. -/

/-- `unsigned short int` -/
def u16 : Layout UInt16 :=
  (word 2).ranged (2 ^ 16) .ofNat (·.toNat) (·.toNat_lt) (fun _ ↦ UInt16.ofNat_toNat)
    fun _ ↦ UInt16.toNat_ofNat_of_lt'

/-- `unsigned int` -/
def u32 : Layout UInt32 :=
  (word 4).ranged (2 ^ 32) .ofNat (·.toNat) (·.toNat_lt) (fun _ ↦ UInt32.ofNat_toNat)
    fun _ ↦ UInt32.toNat_ofNat_of_lt'

/-- `bool`; other bytes than 0 and 1 are none. -/
def bool : Layout Bool :=
  (word 1).ranged 2 (· == 1) (·.toNat) (·.toNat_lt) (by decide) (by decide)

/-- `time_t` -/
def time : Layout Int :=
  (word 8).map (fun t ↦ -2 ^ 63 ≤ t ∧ t < 2 ^ 63)
    (fun n ↦ if n < 2 ^ 64 then some (if n < 2 ^ 63 then n else n - 2 ^ 64) else none)
    (fun t ↦ (t % 2 ^ 64).toNat)
    (fun t ht ↦ by
      rw [if_pos (by omega), Option.some_inj]
      split <;> omega)
    (fun n t h ↦ by
      obtain ⟨hn, h⟩ := Option.ite_none_right_eq_some.mp h
      rw [← Option.some_inj.mp h]
      split <;> omega)

/-- An array of characters, each of which is a byte. -/
def text (n : Nat) : Layout Name :=
  (chars n).map (fun name ↦ ∀ c ∈ name, c.toNat < 256)
    (fun bytes ↦ some (bytes.map fun b ↦ .ofNat b.toNat))
    (fun name ↦ name.map fun c ↦ .ofNat c.toNat)
    (fun name hname ↦ by
      rw [List.map_map, Option.some_inj]
      refine (List.map_congr_left fun c hc ↦ ?_).trans (List.map_id _)
      simp only [Function.comp, UInt8.toNat_ofNat_of_lt' (hname c hc), Char.ofNat_toNat, id])
    (fun bytes name h ↦ by
      have htoNat : ∀ b : UInt8, (Char.ofNat b.toNat).toNat = b.toNat := fun b ↦ by
        rw [Char.ofNat, dif_pos (.inl (b.toNat_lt.trans (by decide)))]
        rfl
      rw [← Option.some_inj.mp h]
      refine ⟨fun c hc ↦ ?_, ?_⟩
      · obtain ⟨b, -, rfl⟩ := List.mem_map.mp hc
        rw [htoNat]
        exact b.toNat_lt
      · rw [List.map_map]
        refine (List.map_congr_left fun b _ ↦ ?_).trans (List.map_id _)
        simp only [Function.comp, htoNat, UInt8.ofNat_toNat, id])

/-- The numbers of the values of `req`. -/
def reqValue : Req → Nat
  | .sync => 0
  | .send => 1
  | .receive => 2
  | .del => 3
  | .login => 4
  | .list => 5
  | .close => 6
  | .fe => 7

/-- `enum class req` -/
def req : Layout Req :=
  (word 4).enum [.sync, .send, .receive, .del, .login, .list, .close, .fe] reqValue
    (fun r ↦ by cases r <;> decide) (by decide)

/-- The numbers of the values of `serv_req`. -/
def servReqValue : ServReq → Nat
  | .sync => 0
  | .alive => 1
  | .clientLogin => 2
  | .propagateLogin => 3
  | .election => 4
  | .newMember => 5
  | .requestEntrance => 6
  | .newFrontEnd => 7

/-- `enum class serv_req` -/
def servReq : Layout ServReq :=
  (word 4).enum [.sync, .alive, .clientLogin, .propagateLogin, .election, .newMember,
    .requestEntrance, .newFrontEnd] servReqValue (fun r ↦ by cases r <;> decide) (by decide)

/-- The masks of `sys/inotify.h` that the values of `Event` stand for. -/
def eventValue : Event → Nat
  | .access => 0x1
  | .modify => 0x2
  | .attrib => 0x4
  | .closeWrite => 0x8
  | .closeNowrite => 0x10
  | .close => 0x18
  | .open => 0x20
  | .movedFrom => 0x40
  | .movedTo => 0x80
  | .move => 0xc0
  | .create => 0x100
  | .remove => 0x200
  | .removeSelf => 0x400
  | .moveSelf => 0x800
  | .all => 0xfff
  | .unmount => 0x2000
  | .qOverflow => 0x4000
  | .ignored => 0x8000
  | .isDir => 0x40000000
  | .oneshot => 0x80000000

/-- `enum class Event : std::uint32_t` -/
def event : Layout Event :=
  (word 4).enum [.access, .attrib, .closeWrite, .closeNowrite, .close, .create, .remove,
    .removeSelf, .modify, .moveSelf, .movedFrom, .movedTo, .move, .open, .isDir, .unmount,
    .qOverflow, .ignored, .oneshot, .all] eventValue (fun e ↦ by cases e <;> decide) (by decide)

/-! ## Structures

One layout for each `struct`, member by member in the order of the headers. -/

/-- `sockaddr_in`, with port and address in network byte order. -/
def sockAddr : Layout SockAddr :=
  ((gap 2 2).pair u16.reverse |>.pair u32.reverse |>.pair (gap 8 1)).close.equiv
    ⟨fun m ↦ ⟨m.1.2, m.1.1.2⟩, fun a ↦ ((((), a.port), a.addr), ()), fun _ ↦ rfl, fun _ ↦ rfl⟩

/-- `file_info` -/
def fileInfo : Layout FileInfo :=
  ((text 510).pair (gap 255 1) |>.pair (word 8) |>.pair time).close.equiv
    ⟨fun m ↦ ⟨m.1.1.1, m.1.2, m.2⟩, fun f ↦ (((f.name, ()), f.size), f.modifiedTime),
      fun _ ↦ rfl, fun _ ↦ rfl⟩

/-- `file_data_t` -/
def fileData : Layout FileData :=
  (fileInfo.pair u32).close.equiv
    ⟨fun m ↦ ⟨m.1, m.2⟩, fun d ↦ (d.file, d.numPackets), fun _ ↦ rfl, fun _ ↦ rfl⟩

/-- `file_event_t` -/
def fileEvent : Layout FileEvent :=
  (fileInfo.pair event).close.equiv
    ⟨fun m ↦ ⟨m.1, m.2⟩, fun e ↦ (e.file, e.event), fun _ ↦ rfl, fun _ ↦ rfl⟩

/-- `handshake_t` -/
def handshake : Layout Handshake :=
  (req.pair (text 255) |>.pair u16 |>.pair sockAddr).close.equiv
    ⟨fun m ↦ ⟨m.1.1.1, m.1.1.2, m.1.2, m.2⟩,
      fun h ↦ (((h.reqType, h.userid), h.device), h.feAddress), fun _ ↦ rfl, fun _ ↦ rfl⟩

/-- `ack_t` -/
def ack : Layout Ack :=
  bool.close.equiv ⟨fun m ↦ ⟨m⟩, fun a ↦ a.confirmation, fun _ ↦ rfl, fun _ ↦ rfl⟩

/-- `syn_t` -/
def syn : Layout Syn :=
  (bool.pair u32 |>.pair u16).close.equiv
    ⟨fun m ↦ ⟨m.1.1, m.1.2, m.2⟩, fun s ↦ ((s.confirmation, s.port), s.device), fun _ ↦ rfl,
      fun _ ↦ rfl⟩

/-- `packet_t`; what is filled of the buffer is known from `data_size`. -/
def packet : Layout Packet :=
  ((u32.pair u32).seq packetSize 1 (fun m ↦ buffer packetSize m.2.toNat) fun _ ↦ rfl).close.equiv
    ⟨fun m ↦ ⟨m.1.1, m.1.2, m.2⟩, fun p ↦ ((p.num, p.dataSize), p.data), fun _ ↦ rfl, fun _ ↦ rfl⟩

/-- `rm_syn_t` -/
def rmSyn : Layout RmSyn :=
  u32.close.equiv ⟨fun m ↦ ⟨m⟩, fun s ↦ s.id, fun _ ↦ rfl, fun _ ↦ rfl⟩

/-- `rm_operation_t` -/
def rmOperation : Layout RmOperation :=
  servReq.close.equiv ⟨fun m ↦ ⟨m⟩, fun o ↦ o.req, fun _ ↦ rfl, fun _ ↦ rfl⟩

/-- `member_t` -/
def member : Layout Member :=
  (u32.pair sockAddr).close.equiv
    ⟨fun m ↦ ⟨m.1, m.2⟩, fun m ↦ (m.id, m.address), fun _ ↦ rfl, fun _ ↦ rfl⟩

/-- `client_t` -/
def client : Layout ClientName :=
  (text 255).close.equiv ⟨fun m ↦ ⟨m⟩, fun c ↦ c.name, fun _ ↦ rfl, fun _ ↦ rfl⟩

/-- `address_t` -/
def address : Layout Address :=
  sockAddr.close.equiv ⟨fun m ↦ ⟨m⟩, fun a ↦ a.address, fun _ ↦ rfl, fun _ ↦ rfl⟩

end Image

/-- The memory of a message. -/
def Kind.layout : (κ : Kind) → Layout κ.Msg
  | handshake => Image.handshake
  | ack => Image.ack
  | syn => Image.syn
  | packet => Image.packet
  | rmSyn => Image.rmSyn
  | rmOperation => Image.rmOperation
  | member => Image.member
  | client => Image.client
  | address => Image.address
  | fileData => Image.fileData
  | fileEvent => Image.fileEvent

/-- `sizeof` -/
example : [Kind.handshake, .ack, .syn, .packet, .rmSyn, .rmOperation, .member, .client, .address,
    .fileData, .fileEvent].map (fun κ ↦ κ.layout.size) =
      [280, 1, 12, 16392, 4, 4, 20, 255, 16, 792, 792] := by decide

/-! ## What fits

Strings, numbers and times for which there is room. -/

/-- A string of bytes that leaves room for its terminator. -/
def Storable (n : Nat) (name : Name) : Prop :=
  name.length < n ∧ ∀ c ∈ name, 0 < c.toNat ∧ c.toNat < 256

/-- Name, size and time of a file are not too large. -/
def FileInfo.Fits (file : FileInfo) : Prop :=
  Storable 510 file.name ∧ file.size < 2 ^ 64 ∧
    -2 ^ 63 ≤ file.modifiedTime ∧ file.modifiedTime < 2 ^ 63

/-- A message can be stored in its `struct`. -/
def Kind.Fits : (κ : Kind) → κ.Msg → Prop
  | handshake, hand => Storable 255 hand.userid
  | packet, p => p.dataSize.toNat ≤ packetSize ∧ p.data.length = p.dataSize.toNat
  | client, c => Storable 255 c.name
  | fileData, d => d.file.Fits
  | fileEvent, e => e.file.Fits
  | _, _ => True

namespace Image

@[simp] theorem u16_fits (a : UInt16) : u16.Fits a := ⟨trivial, a.toNat_lt⟩

@[simp] theorem u32_fits (a : UInt32) : u32.Fits a := ⟨trivial, a.toNat_lt⟩

@[simp] theorem bool_fits (b : Bool) : bool.Fits b := ⟨trivial, b.toNat_lt.trans (by decide)⟩

@[simp] theorem req_fits (r : Req) : req.Fits r :=
  ⟨trivial, word_fits.mpr (by cases r <;> decide)⟩

@[simp] theorem servReq_fits (r : ServReq) : servReq.Fits r :=
  ⟨trivial, word_fits.mpr (by cases r <;> decide)⟩

@[simp] theorem event_fits (e : Event) : event.Fits e :=
  ⟨trivial, word_fits.mpr (by cases e <;> decide)⟩

@[simp] theorem time_fits {t : Int} : time.Fits t ↔ -2 ^ 63 ≤ t ∧ t < 2 ^ 63 := by
  refine and_iff_left_of_imp fun _ ↦ word_fits.mpr ?_
  show (t % 2 ^ 64).toNat < 256 ^ 8
  omega

@[simp] theorem text_fits {n : Nat} {name : Name} : (text n).Fits name ↔ Storable n name := by
  show (∀ c ∈ name, c.toNat < 256) ∧ (name.map fun c ↦ UInt8.ofNat c.toNat).length < n ∧
    0 ∉ (name.map fun c ↦ UInt8.ofNat c.toNat) ↔ _
  rw [List.length_map, List.mem_map, Storable]
  constructor
  · rintro ⟨hbyte, hlen, hzero⟩
    refine ⟨hlen, fun c hc ↦ ⟨Nat.pos_of_ne_zero fun h0 ↦ hzero ⟨c, hc, ?_⟩, hbyte c hc⟩⟩
    rw [h0]
    rfl
  · rintro ⟨hlen, hname⟩
    refine ⟨fun c hc ↦ (hname c hc).2, hlen, ?_⟩
    rintro ⟨c, hc, h0⟩
    have hnat := congrArg UInt8.toNat h0
    rw [UInt8.toNat_ofNat_of_lt' (hname c hc).2] at hnat
    exact (hname c hc).1.ne' hnat

@[simp] theorem sockAddr_fits (a : SockAddr) : sockAddr.Fits a := by
  simp [sockAddr]

@[simp] theorem fileInfo_fits {file : FileInfo} : fileInfo.Fits file ↔ file.Fits := by
  simp [fileInfo, FileInfo.Fits, and_assoc]

end Image

theorem layout_fits {κ : Kind} {m : κ.Msg} : κ.layout.Fits m ↔ κ.Fits m := by
  cases κ with
  | packet => exact and_iff_right ⟨Image.u32_fits _, Image.u32_fits _⟩
  | _ =>
    simp [Kind.layout, Kind.Fits, Image.handshake, Image.ack, Image.syn, Image.rmSyn,
      Image.rmOperation, Image.member, Image.client, Image.address, Image.fileData,
      Image.fileEvent]

/-- **The format of the datagrams**: a message that fits is received as it was sent, whatever is in
the memory around it on either side; whatever datagram arrives, what is made of it fits; and a
datagram of the right size that something is made of is what would be sent for that. -/
theorem wire_round_trip (κ : Kind) :
    (∀ (m : κ.Msg) (mem fresh : List UInt8), κ.Fits m → mem.length = κ.layout.size →
      fresh.length = κ.layout.size →
      κ.layout.load (κ.layout.received fresh (κ.layout.store m mem)) = some m) ∧
    (∀ (m : κ.Msg) (datagram fresh : List UInt8), fresh.length = κ.layout.size →
      κ.layout.load (κ.layout.received fresh datagram) = some m → κ.Fits m) ∧
    (∀ (m : κ.Msg) (datagram : List UInt8), datagram.length = κ.layout.size →
      κ.layout.load datagram = some m → κ.layout.store m datagram = datagram) :=
  ⟨fun _ _ _ hm hmem hfresh ↦ κ.layout.load_received (layout_fits.mpr hm) hmem hfresh,
    fun _ datagram _ hfresh h ↦
      layout_fits.mp (κ.layout.fits_of_load (κ.layout.length_received hfresh datagram) h),
    fun _ _ hlen h ↦ κ.layout.store_load hlen h⟩

/-- The announcement of a file. -/
def announcement : FileData := ⟨⟨['f'], 3, 1⟩, 1⟩

theorem fits_announcement : Kind.fileData.Fits announcement := by
  show FileInfo.Fits ⟨['f'], 3, 1⟩
  refine ⟨⟨by decide, ?_⟩, by decide, by decide, by decide⟩
  intro c hc
  obtain rfl := List.mem_singleton.mp hc
  decide

/-- The announcement of a file is sent from memory that is full of sevens and received into memory
that is full of zeros; what has been received fits, and would be sent as the same bytes. -/
theorem announcement_round_trips :
    let layout := Kind.fileData.layout
    let datagram := layout.store announcement (List.replicate layout.size 7)
    layout.load (layout.received (List.replicate layout.size 0) datagram) = some announcement ∧
      Kind.fileData.Fits announcement ∧ layout.store announcement datagram = datagram := by
  have hmem (b : UInt8) : (List.replicate Kind.fileData.layout.size b).length =
      Kind.fileData.layout.size := List.length_replicate
  obtain ⟨hsent, hfits, hback⟩ := wire_round_trip .fileData
  have harrived := hsent announcement _ _ fits_announcement (hmem 7) (hmem 0)
  have hstored := layout_fits (κ := .fileData).mpr fits_announcement
  exact ⟨harrived, hfits _ _ _ (hmem 0) harrived,
    hback _ _ (Kind.fileData.layout.length_store hstored (hmem 7))
      (Kind.fileData.layout.load_store hstored (hmem 7))⟩

end Bropdox
