import Bropdox.Delivery
import Bropdox.Session.Solo

/-!
# Packets that arrive in any order

On a network that reorders, loses and duplicates, what arrives at a receiver are packets of the
sender in any order, any number of times; an order of arrival is a list of places in the file.  Both
receivers take as many packets as were announced, whichever they are, and write them in the order in
which they came.  They count them and do not look at their numbers.

## What is here

* `arrivals` are the packets at some places of a file, and `piece` the bytes of one of them.
* `Spells` says that the first packets to arrive spell the file, and `InOrder` that they are the
  packets of the file in order.  Both are decidable.
* `spells_all_iff`: the first packets spell every file of a given number of packets exactly if they
  are in order.  The files that tell two orders apart are all zeros but for one byte (`marked`).
* `AckSound` is what a positive acknowledgement promises: whenever a receiver that has acknowledged
  the file is done, the disk holds the file.
* `handler_run`, `handler_starved`, `client_run` and `client_starved` are the runs of the two
  receivers, where enough packets arrive and where they do not.
* `handlerSound_iff`, `clientSound_iff`: a receiver can be trusted exactly if too few packets arrive
  for it to answer, or the first ones spell the file.
* `ack_sound_iff` has both receivers, for one file and for all files.
* `late_copy_harmless` and `two_packets_swapped` are two packets of which the first arrives once
  more, and two that change places.
-/

set_option autoImplicit false

namespace Bropdox

open FileSystem Session Program SocketHandler

/-! ## What arrives

What packets at some places of a file are written as. -/

/-- The packets at some places of a file. -/
def arrivals (c : Contents) (order : List Nat) : List Packet :=
  order.filterMap fun i ↦ (packetsOf c)[i]?

/-- The bytes of the packet at a place. -/
def piece (c : Contents) (i : Nat) : List UInt8 := (c.bytes.drop (i * packetSize)).take packetSize

section Pieces

variable {c : Contents} {order : List Nat} {i : Nat} {p : Packet}

theorem written_of_getElem? (beyond : Packet → Nat → UInt8) (hp : (packetsOf c)[i]? = some p) :
    p.written beyond = piece c i := by
  simp only [getElem?_packetsOf, Option.ite_none_right_eq_some, Option.some.injEq] at hp
  obtain ⟨-, rfl⟩ := hp
  have hsize : (UInt32.ofNat (min packetSize (c.bytes.length - i * packetSize))).toNat
      = (piece c i).length := by
    rw [UInt32.toNat_ofNat', Nat.mod_eq_of_lt (lt_of_le_of_lt (Nat.min_le_left ..) (by decide)),
      piece, List.length_take, List.length_drop]
  exact Packet.written_of_length beyond (List.length_take_le ..) hsize

theorem length_piece_le (c : Contents) (i : Nat) : (piece c i).length ≤ packetSize :=
  List.length_take_le ..

/-- What the packets that arrive spell. -/
theorem flatMap_arrivals (beyond : Packet → Nat → UInt8)
    (horder : ∀ i ∈ order, i < (packetsOf c).length) :
    (arrivals c order).flatMap (Packet.written beyond) = order.flatMap (piece c) := by
  induction order with
  | nil => rfl
  | cons i order ih =>
    obtain ⟨hi, horder⟩ := List.forall_mem_cons.mp horder
    have hp := List.getElem?_eq_getElem hi
    rw [arrivals, List.filterMap_cons_some hp, ← arrivals, List.flatMap_cons, List.flatMap_cons,
      written_of_getElem? beyond hp, ih horder]

theorem length_arrivals (horder : ∀ i ∈ order, i < (packetsOf c).length) :
    (arrivals c order).length = order.length := by
  induction order with
  | nil => rfl
  | cons i order ih =>
    obtain ⟨hi, horder⟩ := List.forall_mem_cons.mp horder
    rw [arrivals, List.filterMap_cons_some (List.getElem?_eq_getElem hi), ← arrivals,
      List.length_cons, List.length_cons, ih horder]

theorem arrivals_append (c : Contents) (order order' : List Nat) :
    arrivals c (order ++ order') = arrivals c order ++ arrivals c order' :=
  List.filterMap_append

end Pieces

/-! ## Orders of arrival

The condition on an order of arrival, for one file and for all files of a size. -/

/-- The first `n` packets that arrive spell the file. -/
def Spells (c : Contents) (n : Nat) (order : List Nat) : Prop :=
  (order.take n).flatMap (piece c) = c.bytes

/-- The first `n` packets that arrive are the file's, in order. -/
def InOrder (n : Nat) (order : List Nat) : Prop := order.take n = List.range n

instance (c : Contents) (n : Nat) (order : List Nat) : Decidable (Spells c n order) :=
  inferInstanceAs (Decidable (_ = _))

instance (n : Nat) (order : List Nat) : Decidable (InOrder n order) :=
  inferInstanceAs (Decidable (_ = _))

/-- The pieces in order. -/
theorem flatMap_range_piece (c : Contents) (k : Nat) :
    (List.range k).flatMap (piece c) = c.bytes.take (k * packetSize) := by
  induction k with
  | zero => simp
  | succ k ih =>
    rw [List.range_succ, List.flatMap_append, ih, List.flatMap_singleton, piece, Nat.succ_mul,
      List.take_add]

theorem Spells.of_inOrder {c : Contents} {n : Nat} {order : List Nat}
    (hn : (packetsOf c).length = n) (h : InOrder n order) : Spells c n order := by
  have hlen : c.bytes.length ≤ n * packetSize := by
    have hdiv := Nat.div_add_mod c.bytes.length packetSize
    have hmod := Nat.mod_lt c.bytes.length (by decide : 0 < packetSize)
    rw [← hn, length_packetsOf, Nat.succ_mul, Nat.mul_comm]
    omega
  rw [Spells, h, flatMap_range_piece, List.take_of_length_le hlen]

/-- A file of `n + 1` packets that are all zeros but for the first byte of one of them. -/
def marked (n j : Nat) (hn : n < 2 ^ 32) : Contents where
  bytes := (List.replicate (n * packetSize + 1) 0).set (j * packetSize) 1
  fits := by
    rw [List.length_set, List.length_replicate, packetSize_eq]
    omega

section Marked

variable {n j k : Nat} {hn : n < 2 ^ 32}

theorem length_marked : (marked n j hn).bytes.length = n * packetSize + 1 := by
  rw [marked, List.length_set, List.length_replicate]

theorem length_packetsOf_marked : (packetsOf (marked n j hn)).length = n + 1 := by
  rw [length_packetsOf, length_marked, packetSize_eq]
  omega

theorem getElem?_marked (hk : k ≤ n) :
    (marked n j hn).bytes[k * packetSize]? = some (if k = j then 1 else 0) := by
  have hlt : k * packetSize < n * packetSize + 1 := Nat.lt_succ_of_le (Nat.mul_le_mul_right _ hk)
  have hiff : j * packetSize = k * packetSize ↔ k = j := by
    rw [Nat.mul_left_inj (by decide), eq_comm]
  rw [marked, List.getElem?_set, List.getElem?_replicate, if_pos hlt, List.length_replicate]
  simp only [hiff]
  split
  · rename_i he
    rw [he] at hlt
    simp [hlt]
  · rfl

end Marked

/-- After some packets in order, the next one is read off from where it begins. -/
theorem getElem?_flatMap_piece {c : Contents} {j k : Nat} {rest : List Nat}
    (hj : j * packetSize ≤ c.bytes.length) (hk : k * packetSize < c.bytes.length) :
    ((List.range j ++ k :: rest).flatMap (piece c))[j * packetSize]? =
      c.bytes[k * packetSize]? := by
  have htake : (c.bytes.take (j * packetSize)).length = j * packetSize :=
    List.length_take_of_le hj
  have hpiece : 0 < (piece c k).length := by
    rw [piece, List.length_take, List.length_drop]
    exact Nat.lt_min.mpr ⟨by decide, Nat.sub_pos_of_lt hk⟩
  rw [List.flatMap_append, flatMap_range_piece, List.getElem?_append_right (by rw [htake]), htake,
    Nat.sub_self, List.flatMap_cons, List.getElem?_append_left hpiece, piece,
    List.getElem?_take_of_lt (by decide), List.getElem?_drop, Nat.add_zero]

/-- **An order of arrival is harmless for every file exactly if it is the order of the packets.** -/
theorem spells_all_iff {n : Nat} {order : List Nat} (hn : n < 2 ^ 32)
    (horder : ∀ i ∈ order, i < n) (hlen : n ≤ order.length) :
    (∀ c, (packetsOf c).length = n → Spells c n order) ↔ InOrder n order := by
  refine ⟨fun hall ↦ ?_, fun h c hc ↦ .of_inOrder hc h⟩
  -- position by position: the packets before it are in order, so it begins where the marked
  -- one does
  suffices hstep : ∀ j, j ≤ n → order.take j = List.range j from hstep n le_rfl
  intro j hj
  induction j with
  | zero => simp
  | succ j ih =>
    obtain ⟨m, rfl⟩ := Nat.exists_eq_add_of_lt hj
    have hjlen : j < order.length := by omega
    have hmem := horder _ (List.getElem_mem hjlen)
    rw [List.take_succ_eq_append_getElem hjlen, ih (by omega), List.range_succ,
      List.append_cancel_left_eq, List.singleton_inj]
    by_contra hne
    have hcut : order.take (j + m + 1)
        = List.range j ++ order[j] :: (order.drop (j + 1)).take m := by
      rw [← ih (by omega), Nat.add_assoc, List.take_add, List.drop_eq_getElem_cons hjlen,
        List.take_succ_cons]
    have hspells := hall (marked (j + m) j (by omega)) length_packetsOf_marked
    rw [Spells, hcut] at hspells
    have hbyte := congrArg (·[j * packetSize]?) hspells
    have hroom : ∀ k, k ≤ j + m →
        k * packetSize < (marked (j + m) j (by omega)).bytes.length := fun k hk ↦ by
      rw [length_marked]
      exact Nat.lt_succ_of_le (Nat.mul_le_mul_right _ hk)
    simp only [getElem?_flatMap_piece (hroom j (by omega)).le (hroom _ (Nat.le_of_lt_succ hmem)),
      getElem?_marked (Nat.le_of_lt_succ hmem), getElem?_marked (Nat.le_add_right j m), if_neg hne,
      if_true] at hbyte
    exact absurd hbyte (by decide)

/-! ## The receivers

Each receiver against a network that has already delivered everything: a run of one endpoint. -/

/-- What a receiver is given: the packets that arrive, as datagrams of its peer. -/
def arriving (packets : List Packet) : List (Parcel sessionWire) :=
  packets.map (parcel .packet)

/-- What is seen of a receiver that takes some packets. -/
def taken (packets : List Packet) : List (Session.Event sessionWire) :=
  packets.map fun packet ↦ .got Kind.packet (parcel .packet packet)

section Receiving

variable {P : Sig} {α : Type} {body : Bodies sessionWire P} {h : P.Host}
  {packets rest : List Packet}
  {evs : List (Session.Event sessionWire)} {e : Endpoint sessionWire P α} {i : Inbox sessionWire}

/-- The receiving loop takes what it waits for. -/
theorem run_waitPackets {k : List (Option Packet) → Program sessionWire P α}
    (hr : Endpoint.Run typed body ⟨h, k (packets.map some)⟩ (some (arriving rest)) evs e i) :
    Endpoint.Run typed body ⟨h, (waitPackets .packet packets.length).bind k⟩
      (some (arriving (packets ++ rest))) (taken packets ++ evs) e i := by
  rw [arriving, List.map_append, ← Nat.add_zero packets.length]
  refine Endpoint.Run.awaitAll (W := sessionWire) (κ := .packet) () packets ?_
  simpa [awaitAll, arriving] using hr

/-- Where there is not enough, it waits for more. -/
theorem run_starved {n : Nat} (hn : packets.length < n)
    (k : List (Option Packet) → Program sessionWire P α) :
    ∃ k', Endpoint.Run typed body ⟨h, (waitPackets .packet n).bind k⟩ (some (arriving packets))
      (taken packets) ⟨h, (waitPacket .packet).bind k'⟩ (some []) := by
  obtain ⟨m, rfl⟩ := Nat.exists_eq_add_of_lt hn
  refine ⟨fun d ↦ (waitPackets .packet m).bind fun more ↦ k (packets.map some ++ d :: more), ?_⟩
  rw [arriving, Nat.add_assoc, ← List.append_nil (packets.map (parcel .packet)),
    ← List.append_nil (taken packets)]
  refine Endpoint.Run.awaitAll (W := sessionWire) (κ := .packet) () packets ?_
  simp only [awaitAll, bind_eq, Program.bind_assoc, pure_eq, ret_bind]
  exact .nil ..

end Receiving

/-- Whenever a receiver that has acknowledged the file is done, the disk holds the file. -/
def AckSound {P : Sig} {α : Type} (body : Bodies sessionWire P) (files : P.Host → FileHost)
    (e : Endpoint sessionWire P α) (inbox : List (Parcel sessionWire)) (p : Path) (c : Contents) :
    Prop :=
  ∀ evs t i, Endpoint.Run typed body e (some inbox) evs t i → (∃ a, t.prog = .ret a) →
    .sent (parcel .ack ⟨true⟩) ∈ evs → Holds (files t.host) p c

section AckSound

variable {P : Sig} {α : Type} {body : Bodies sessionWire P} {files : P.Host → FileHost}
  {e t : Endpoint sessionWire P α} {inbox : List (Parcel sessionWire)} {p : Path} {c : Contents}
  {evs : List (Session.Event sessionWire)} {i : Inbox sessionWire}

/-- Whether an acknowledgement is sound depends on the end of the run only. -/
theorem ackSound_iff (hr : Endpoint.Run typed body e (some inbox) evs t i) {a : α}
    (ht : t.prog = .ret a) (hack : .sent (parcel .ack ⟨true⟩) ∈ evs) :
    AckSound body files e inbox p c ↔ Holds (files t.host) p c := by
  refine ⟨fun hs ↦ hs evs t i hr ⟨a, ht⟩ hack, fun hholds evs' t' i' hr' ⟨b, hb⟩ _ ↦ ?_⟩
  obtain ⟨-, rfl, -⟩ := hr.eq_of_stuck (Endpoint.step_eq_none_of_ret ht i) hr'
    (Endpoint.step_eq_none_of_ret hb i')
  exact hholds

/-- A receiver that never comes to its end has acknowledged nothing. -/
theorem ackSound_of_waiting {κ : Kind} {k : Option κ.Msg → Program sessionWire P α} {s : P.Host}
    (hr : Endpoint.Run typed body e (some inbox) evs ⟨s, (waitPacket κ).bind k⟩ (some [])) :
    AckSound body files e inbox p c := by
  rintro evs' t' i' hr' ⟨b, hb⟩ -
  obtain ⟨-, rfl, -⟩ := hr.eq_of_stuck rfl hr' (Endpoint.step_eq_none_of_ret hb i')
  cases hb

end AckSound

section Handler

variable {h : FileHost} {file : Name} {packets rest : List Packet} {n : UInt32}

/-- `receive_file` of the request handler, where enough packets arrive. -/
theorem handler_run (file : Name) (rest : List Packet) (hn : n.toNat = packets.length) :
    Endpoint.Run typed RequestHandler.body ⟨h, RequestHandler.receiveFile file n⟩
      (some (arriving (packets ++ rest))) (taken packets ++ [.sent (parcel .ack ⟨true⟩)])
      ⟨h.store file [] packets, .ret ()⟩ (some (arriving rest)) := by
  have hwrite : (FileOp.writeFile file (packets.map some) []).exec h
      = .ok (true, h.store file [] packets) := FileHost.writeFile_some ..
  rw [RequestHandler.receiveFile, bind_eq, hn]
  refine run_waitPackets ?_
  rw [if_pos (countP_some packets)]
  refine Endpoint.Run.operation (P := RequestHandler.sig) hwrite ?_
  rw [← bind_ret (sendPacket _ _)]
  exact .emit (.nil ..)

/-- Where too few arrive, it waits. -/
theorem handler_starved (h : FileHost) (file : Name) (hn : packets.length < n.toNat) :
    ∃ k, Endpoint.Run typed RequestHandler.body ⟨h, RequestHandler.receiveFile file n⟩
      (some (arriving packets)) (taken packets) ⟨h, (waitPacket .packet).bind k⟩ (some []) := by
  rw [RequestHandler.receiveFile, bind_eq]
  exact run_starved hn _

end Handler

section Client

variable {h : Client.Host} {file path : Name} {packets rest : List Packet} {d : FileData}

theorem run_resetUnlessSyncing {k : Unit → Client.Prog Bool}
    {i : Inbox sessionWire} {e : Endpoint sessionWire Client.sig Bool} {j : Inbox sessionWire}
    {evs : List (Session.Event sessionWire)}
    (hr : Endpoint.Run typed Client.body ⟨h, k ()⟩ (Peers.socketAfter h i) evs e j) :
    Endpoint.Run typed Client.body ⟨h, Client.resetUnlessSyncing.bind k⟩ i evs e j := by
  rw [Client.resetUnlessSyncing, bind_eq, Program.bind_assoc]
  refine Endpoint.Run.operation (P := Client.sig) (o := .isSyncing) rfl ?_
  rw [Peers.socketAfter] at hr
  by_cases hs : h.syncing = true
  · rw [if_pos hs] at hr
    rw [hs]
    exact hr
  · rw [if_neg hs] at hr
    rw [Bool.not_eq_true] at hs
    rw [hs]
    have hstep : Endpoint.step typed Client.body ⟨h, shut.bind k⟩ i
        = some (⟨h, k ()⟩, none, []) := rfl
    exact .cons hstep hr

/-- The request `get_file` begins with. -/
theorem run_getFile {info : FileInfo} (hinfo : h.files.getFileInfo file = .ok info)
    {evs : List (Session.Event sessionWire)} {e : Endpoint sessionWire Client.sig Bool}
    {i j : Inbox sessionWire}
    (hr : Endpoint.Run typed Client.body ⟨h, Client.receiveRequested file path⟩ i evs e j) :
    Endpoint.Run typed Client.body ⟨h, Client.getFile file path⟩ i
      (.sent (parcel .fileData ⟨info, 0⟩) :: evs) e j := by
  have hexec : (Client.Op.file (.getFileInfo file)).exec h = .ok (info, h) :=
    Client.Op.exec_file (FileOp.exec_getFileInfo hinfo)
  exact Endpoint.Run.operation (P := Client.sig) hexec (.emit hr)

/-- `get_file` of the client, where enough packets arrive. -/
theorem client_run {info : FileInfo} (path : Name) (rest : List Packet)
    (hinfo : h.files.getFileInfo file = .ok info)
    (hn : d.numPackets.toNat = packets.length) (hpos : d.numPackets ≠ 0) :
    Endpoint.Run typed Client.body ⟨h, Client.getFile file path⟩
      (some (parcel .fileData d :: arriving (packets ++ rest)))
      (.sent (parcel .fileData ⟨info, 0⟩) :: .got .fileData (parcel .fileData d) ::
        (taken packets ++ [.sent (parcel .ack ⟨true⟩)]))
      ⟨{ h with files := h.files.store file path packets }, .ret true⟩
      (Peers.socketAfter h (some (arriving rest))) := by
  have hexec : (Client.Op.file (.writeFile file (packets.map some) path)).exec h
      = .ok (true, { h with files := h.files.store file path packets }) :=
    Client.Op.exec_file (FileHost.writeFile_some file path packets)
  refine run_getFile hinfo ?_
  rw [Client.receiveRequested, bind_eq]
  refine Endpoint.Run.await (typed_self ..) ?_
  simp only [expect_some, bind_eq, ret_bind, if_neg hpos, hn]
  refine run_waitPackets ?_
  rw [if_pos (countP_some packets)]
  refine .emit ?_
  rw [discard_eq, Program.bind_assoc]
  refine Endpoint.Run.operation (P := Client.sig) hexec ?_
  exact run_resetUnlessSyncing (.nil ..)

/-- Where too few arrive, it waits. -/
theorem client_starved {info : FileInfo} (path : Name)
    (hinfo : h.files.getFileInfo file = .ok info)
    (hn : packets.length < d.numPackets.toNat) :
    ∃ k, Endpoint.Run typed Client.body ⟨h, Client.getFile file path⟩
      (some (parcel .fileData d :: arriving packets))
      (.sent (parcel .fileData ⟨info, 0⟩) :: .got .fileData (parcel .fileData d) :: taken packets)
      ⟨h, (waitPacket .packet).bind k⟩ (some []) := by
  have hpos : d.numPackets ≠ 0 := by
    intro h0
    rw [h0] at hn
    exact Nat.not_lt_zero _ hn
  obtain ⟨k, hk⟩ : ∃ k', Endpoint.Run typed Client.body _ _ _ ⟨h, (waitPacket .packet).bind k'⟩ _ :=
    run_starved hn _
  refine ⟨k, run_getFile hinfo ?_⟩
  rw [Client.receiveRequested, bind_eq]
  refine Endpoint.Run.await (typed_self ..) ?_
  simp only [expect_some, bind_eq, ret_bind, if_neg hpos]
  exact hk

end Client

/-! ## What an acknowledgement is worth

The runs of the receivers, read as a condition on the order of arrival. -/

/-- The packets written to a file are the file exactly if they spell it. -/
theorem holds_store_iff {h : FileHost} {file path : Name} {p : Path} {c : Contents}
    {packets : List Packet} (hopen : h.machine.resolve (h.writePath file path) = some p)
    (hdir : h.machine.disk.isDir p = false)
    (hfits : (packets.flatMap (Packet.written h.beyond)).length < 2 ^ 64) :
    Holds (h.store file path packets) p c ↔
      packets.flatMap (Packet.written h.beyond) = c.bytes := by
  have hwrite : (h.store file path packets).machine
      = h.machine.put p ⟨packets.flatMap (Packet.written h.beyond), hfits⟩ := by
    rw [FileHost.store]
    exact Machine.write_of_resolve hopen hdir ⟨_, hfits⟩
  rw [Holds, hwrite, Machine.put, Disk.at?_set_self]
  simp [Contents.ext_iff]

/-- Any packets that can be counted fit into a file. -/
theorem length_flatMap_piece_lt {c : Contents} {order : List Nat} {n : Nat} (hn : n < 2 ^ 32)
    (hlen : order.length ≤ n) : (order.flatMap (piece c)).length < 2 ^ 64 := by
  have hle : (order.flatMap (piece c)).length ≤ order.length * packetSize := by
    clear hlen
    induction order with
    | nil => exact Nat.zero_le _
    | cons i order ih =>
      rw [List.flatMap_cons, List.length_append, List.length_cons, Nat.succ_mul, Nat.add_comm]
      exact Nat.add_le_add ih (length_piece_le c i)
  rw [packetSize_eq] at hle
  omega

section Sound

variable {c : Contents} {order : List Nat} {p : Path} {n : UInt32}

/-- **`receive_file` can be trusted exactly if too few packets arrive or the first ones spell the
file.** -/
theorem handlerSound_iff {h : FileHost} {file : Name}
    (hopen : h.machine.resolve (h.writePath file []) = some p)
    (hdir : h.machine.disk.isDir p = false) (hn : (packetsOf c).length = n.toNat)
    (horder : ∀ i ∈ order, i < n.toNat) :
    AckSound RequestHandler.body id ⟨h, RequestHandler.receiveFile file n⟩
      (arriving (arrivals c order)) p c ↔ order.length < n.toNat ∨ Spells c n.toNat order := by
  rw [← hn] at horder
  rcases Nat.lt_or_ge order.length n.toNat with hlt | hge
  · obtain ⟨k, hk⟩ := handler_starved h file
      ((length_arrivals horder).trans_lt hlt)
    exact ⟨fun _ ↦ .inl hlt, fun _ ↦ ackSound_of_waiting hk⟩
  · have hfirst : ∀ i ∈ order.take n.toNat, i < (packetsOf c).length :=
      fun i hi ↦ horder i (List.mem_of_mem_take hi)
    have hcount : n.toNat = (arrivals c (order.take n.toNat)).length := by
      rw [length_arrivals hfirst, List.length_take_of_le hge]
    have hrun := handler_run (h := h) file (arrivals c (order.drop n.toNat)) hcount
    rw [← arrivals_append, List.take_append_drop] at hrun
    rw [ackSound_iff hrun rfl (by simp), id_eq, holds_store_iff hopen hdir,
      flatMap_arrivals _ hfirst, or_iff_right (Nat.not_lt.mpr hge), Spells]
    rw [flatMap_arrivals _ hfirst]
    exact length_flatMap_piece_lt n.toNat_lt (List.length_take_le ..)

/-- **`get_file` can be trusted exactly if too few packets arrive or the first ones spell the
file.** -/
theorem clientSound_iff {g : Client.Host} {file path : Name} {asked info : FileInfo}
    (hinfo : g.files.getFileInfo file = .ok asked)
    (hopen : g.files.machine.resolve (g.files.writePath file path) = some p)
    (hdir : g.files.machine.disk.isDir p = false) (hn : (packetsOf c).length = n.toNat)
    (horder : ∀ i ∈ order, i < n.toNat) :
    AckSound Client.body Client.Host.files ⟨g, Client.getFile file path⟩
      (parcel .fileData ⟨info, n⟩ :: arriving (arrivals c order)) p c ↔
        order.length < n.toNat ∨ Spells c n.toNat order := by
  rw [← hn] at horder
  rcases Nat.lt_or_ge order.length n.toNat with hlt | hge
  · obtain ⟨k, hk⟩ := client_starved (h := g) (d := ⟨info, n⟩) path hinfo
      ((length_arrivals horder).trans_lt hlt)
    exact ⟨fun _ ↦ .inl hlt, fun _ ↦ ackSound_of_waiting hk⟩
  · have hfirst : ∀ i ∈ order.take n.toNat, i < (packetsOf c).length :=
      fun i hi ↦ horder i (List.mem_of_mem_take hi)
    have hcount : n.toNat = (arrivals c (order.take n.toNat)).length := by
      rw [length_arrivals hfirst, List.length_take_of_le hge]
    have hpos : n ≠ 0 := by
      intro h0
      have := List.length_pos_of_ne_nil (packetsOf_ne_nil c)
      rw [hn, h0] at this
      exact Nat.lt_irrefl _ this
    have hrun := client_run (h := g) (d := ⟨info, n⟩) path
      (arrivals c (order.drop n.toNat)) hinfo hcount hpos
    rw [← arrivals_append, List.take_append_drop] at hrun
    rw [ackSound_iff hrun rfl (by simp), holds_store_iff hopen hdir,
      flatMap_arrivals _ hfirst, or_iff_right (Nat.not_lt.mpr hge), Spells]
    rw [flatMap_arrivals _ hfirst]
    exact length_flatMap_piece_lt n.toNat_lt (List.length_take_le ..)

end Sound

/-- **A positive acknowledgement is sound exactly for the orders of arrival that spell the file**:
for every file, these are the ones that begin with its packets in order. -/
theorem ack_sound_iff {h : FileHost} {g : Client.Host} {f f' path : Name} {p p' : Path} {n : UInt32}
    {order : List Nat} {asked info : FileInfo}
    (hopen : h.machine.resolve (h.writePath f []) = some p)
    (hdir : h.machine.disk.isDir p = false)
    (hasked : g.files.getFileInfo f' = .ok asked)
    (hopen' : g.files.machine.resolve (g.files.writePath f' path) = some p')
    (hdir' : g.files.machine.disk.isDir p' = false) (horder : ∀ i ∈ order, i < n.toNat) :
    (∀ c, (packetsOf c).length = n.toNat →
      (AckSound RequestHandler.body id ⟨h, RequestHandler.receiveFile f n⟩
          (arriving (arrivals c order)) p c ↔ order.length < n.toNat ∨ Spells c n.toNat order) ∧
      (AckSound Client.body Client.Host.files ⟨g, Client.getFile f' path⟩
          (parcel .fileData ⟨info, n⟩ :: arriving (arrivals c order)) p' c ↔
        order.length < n.toNat ∨ Spells c n.toNat order)) ∧
    ((∀ c, (packetsOf c).length = n.toNat →
        AckSound RequestHandler.body id ⟨h, RequestHandler.receiveFile f n⟩
            (arriving (arrivals c order)) p c ∧
          AckSound Client.body Client.Host.files ⟨g, Client.getFile f' path⟩
            (parcel .fileData ⟨info, n⟩ :: arriving (arrivals c order)) p' c) ↔
      order.length < n.toNat ∨ InOrder n.toNat order) := by
  have hpoint : ∀ c, (packetsOf c).length = n.toNat →
      (AckSound RequestHandler.body id ⟨h, RequestHandler.receiveFile f n⟩
          (arriving (arrivals c order)) p c ↔ order.length < n.toNat ∨ Spells c n.toNat order) ∧
      (AckSound Client.body Client.Host.files ⟨g, Client.getFile f' path⟩
          (parcel .fileData ⟨info, n⟩ :: arriving (arrivals c order)) p' c ↔
        order.length < n.toNat ∨ Spells c n.toNat order) := fun c hc ↦
    ⟨handlerSound_iff hopen hdir hc horder, clientSound_iff hasked hopen' hdir' hc horder⟩
  refine ⟨hpoint, ?_⟩
  rcases Nat.lt_or_ge order.length n.toNat with hlt | hge
  · exact ⟨fun _ ↦ .inl hlt,
      fun _ c hc ↦ ⟨(hpoint c hc).1.mpr (.inl hlt), (hpoint c hc).2.mpr (.inl hlt)⟩⟩
  · rw [or_iff_right (Nat.not_lt.mpr hge), ← spells_all_iff n.toNat_lt horder hge]
    constructor
    · intro hall c hc
      exact ((hpoint c hc).1.mp (hall c hc).1).resolve_left (Nat.not_lt.mpr hge)
    · intro hall c hc
      exact ⟨(hpoint c hc).1.mpr (.inr (hall c hc)), (hpoint c hc).2.mpr (.inr (hall c hc))⟩

/-- A host with one file, `/f`, and `/` as its sync directory. -/
def oneFileHost : FileHost := rootHost oneFileMachine

/-- A client on it. -/
def oneFileClient : Client.Host := { files := oneFileHost, syncing := false }

/-- Two packets, the first of which arrives once more behind the second. -/
theorem late_copy_harmless :
    AckSound RequestHandler.body id ⟨oneFileHost, RequestHandler.receiveFile ['f'] 2⟩
        (arriving (arrivals (marked 1 1 (by decide)) [0, 1, 0])) [['f']] (marked 1 1 (by decide)) ∧
      AckSound Client.body Client.Host.files ⟨oneFileClient, Client.getFile ['f'] []⟩
        (parcel .fileData ⟨⟨['f'], 0, 0⟩, 2⟩ ::
          arriving (arrivals (marked 1 1 (by decide)) [0, 1, 0]))
        [['f']] (marked 1 1 (by decide)) :=
  have horder : ∀ i ∈ [0, 1, 0], i < (2 : UInt32).toNat := by decide
  (ack_sound_iff (h := oneFileHost) (g := oneFileClient) rfl rfl rfl rfl rfl horder).2.mpr
    (.inr rfl) (marked 1 1 (by decide)) length_packetsOf_marked

/-- Two packets that arrive in the other order. -/
theorem two_packets_swapped :
    (∀ i ∈ [1, 0], i < (packetsOf (marked 1 0 (by decide))).length) ∧
      ¬ AckSound RequestHandler.body id ⟨oneFileHost, RequestHandler.receiveFile ['f'] 2⟩
        (arriving (arrivals (marked 1 0 (by decide)) [1, 0])) [['f']] (marked 1 0 (by decide)) ∧
      ¬ AckSound Client.body Client.Host.files ⟨oneFileClient, Client.getFile ['f'] []⟩
        (parcel .fileData ⟨⟨['f'], 0, 0⟩, 2⟩ :: arriving (arrivals (marked 1 0 (by decide)) [1, 0]))
        [['f']] (marked 1 0 (by decide)) := by
  have hn : (packetsOf (marked 1 0 (by decide))).length = 2 := length_packetsOf_marked
  have hspells : ¬ Spells (marked 1 0 (by decide)) 2 [1, 0] := by
    intro hs
    have hbyte := congrArg (·[0 * packetSize]?) hs
    have hfirst : [1, 0].take 2 = List.range 0 ++ 1 :: [0] := rfl
    have hroom : 1 * packetSize < (marked 1 0 (by decide)).bytes.length := by
      rw [length_marked]
      exact Nat.lt_succ_self _
    simp only [hfirst, getElem?_flatMap_piece (Nat.zero_mul _ ▸ Nat.zero_le _) hroom,
      getElem?_marked le_rfl, getElem?_marked (Nat.zero_le 1)] at hbyte
    exact absurd hbyte (by decide)
  have horder : ∀ i ∈ [1, 0], i < (2 : UInt32).toNat := by decide
  have hbad : ¬ ([1, 0].length < (2 : UInt32).toNat ∨
      Spells (marked 1 0 (by decide)) (2 : UInt32).toNat [1, 0]) :=
    not_or.mpr ⟨by decide, hspells⟩
  refine ⟨?_, ?_, ?_⟩
  · rw [hn]
    decide
  · rw [handlerSound_iff (h := oneFileHost) rfl rfl hn horder]
    exact hbad
  · rw [clientSound_iff (g := oneFileClient) (n := 2) rfl rfl rfl hn horder]
    exact hbad

end Bropdox
