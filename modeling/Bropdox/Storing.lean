import Bropdox.FileSystem.Stream
import Bropdox.Receiving

/-!
# What `write_file` reports

`FileHandler::write_file` on a storage that may fail (`writeFileOn`): it opens a stream, writes
every packet to it, and returns `true`.  Its `catch` block, which would remove a partial file and
return `false`, is for an exception that a stream with the default mask never throws, so that no
failure is ever reported, not even that of the open.

What is true is that the file holds the packets exactly if no packet states a size that its buffer
does not have, and the stream opens and takes all of them or does not open and the file has held
them before (`tellsTruth_iff`).  The answer of `RequestHandler::receive_file` is as true as the one
of `write_file`, which it passes on.

## What is here

* `writeLoop` and `FileHost.writeFileOn` — the loop of `write_file` over a stream, and the function
  around it with its `catch` block; `writeFileOn_flawless` connects it with `FileHost.writeFile`.
* `writeFileOn_some` — the answer is always `true`, because the stream never throws.
* `Packet.carried` — the data of a packet, which one that is overfull does not have;
  `FileHost.Holds` — a file holds the data of some packets, one after the other.
* `FileHost.Lands` and `holds_storeOn` — when it does.
* `FileHost.TellsTruth` — the law, for `write_file` and for the acknowledgement of the handler.
-/

set_option autoImplicit false

namespace Bropdox

open FileSystem Session Program SocketHandler

/-- How the loop of `write_file` ends early. -/
inductive Interrupt
  /-- A null pointer is dereferenced. -/
  | crash
  /-- The stream throws, and this is what it has come to. -/
  | failure (s : OutStream)

/-- The loop of `write_file`. -/
def writeLoop (beyond : Packet → Nat → UInt8) :
    List (Option Packet) → OutStream → Except Interrupt OutStream
  | [], s => .ok s
  | none :: _, _ => .error .crash
  | some packet :: fileData, s =>
    match s.write (packet.written beyond) with
    | .ok s => writeLoop beyond fileData s
    | .error s => .error (.failure s)

namespace FileHost

/-- `write_file` on a storage that may fail. -/
def writeFileOn (h : FileHost) (b : Storage) (fileName : Name) (fileData : List (Option Packet))
    (path : Name) : Except Exn (Bool × FileHost) :=
  match writeLoop h.beyond fileData (.openFile b h.machine (h.writePath fileName path)) with
  | .ok s => .ok (true, { h with machine := s.close h.machine })
  | .error .crash => .error .nullPointer
  | .error (.failure s) =>
    -- the file is removed first and closed then, with the same effect
    match (s.close h.machine).remove (h.writePath fileName path) with
    | some m => .ok (false, { h with machine := m })
    | none => .error .filesystemError

end FileHost

/-! ## What `write_file` does

The loop and the function around it, one equation for each way they can go, and from these when the
file holds the packets: `FileHost.Lands`. -/

/-- The data of a packet: as many bytes of its buffer as it states, if the buffer has them. -/
def Packet.carried (p : Packet) : Option (List UInt8) :=
  if p.dataSize.toNat ≤ packetSize then some (p.buffer.take p.dataSize.toNat) else none

theorem Packet.carried_of_le (beyond : Packet → Nat → UInt8) {p : Packet}
    (hle : p.dataSize.toNat ≤ packetSize) : p.carried = some (p.written beyond) := by
  rw [carried, if_pos hle, written_of_le beyond hle]

/-- What the loop gives the stream, write by write. -/
def writes (beyond : Packet → Nat → UInt8) (packets : List Packet) : List (List UInt8) :=
  packets.map (Packet.written beyond)

section Loop

variable (beyond : Packet → Nat → UInt8)

/-- **The stream never throws**, whatever happens to it. -/
theorem writeLoop_some {s : OutStream} (hs : s.exceptions = false) (packets : List Packet) :
    writeLoop beyond (packets.map some) s = .ok (s.afterAll (writes beyond packets)) := by
  induction packets generalizing s with
  | nil => rfl
  | cons packet packets ih =>
    rw [List.map_cons, writeLoop, OutStream.write_of_no_exceptions hs]
    exact ih (by rw [OutStream.after_exceptions, hs])

/-- A null pointer among the packets is dereferenced. -/
theorem writeLoop_none {s : OutStream} (hs : s.exceptions = false)
    {fileData : List (Option Packet)} (h : none ∈ fileData) :
    writeLoop beyond fileData s = .error .crash := by
  induction fileData generalizing s with
  | nil => cases h
  | cons m fileData ih =>
    cases m with
    | none => rfl
    | some packet =>
      rw [writeLoop, OutStream.write_of_no_exceptions hs]
      exact ih (by rw [OutStream.after_exceptions, hs]) (by simpa using h)

/-- Packets that are not overfull are written as they are. -/
theorem map_carried {packets : List Packet} (hle : ∀ p ∈ packets, p.dataSize.toNat ≤ packetSize) :
    packets.map Packet.carried = (writes beyond packets).map some := by
  rw [writes, List.map_map]
  exact List.map_congr_left fun p hp ↦ Packet.carried_of_le beyond (hle p hp)

end Loop

/-- Packets that have data are not overfull. -/
theorem le_of_carried {packets : List Packet} {pieces : List (List UInt8)}
    (h : packets.map Packet.carried = pieces.map some) :
    ∀ p ∈ packets, p.dataSize.toNat ≤ packetSize := by
  intro p hp
  have hmem : p.carried ∈ pieces.map some := h ▸ List.mem_map_of_mem hp
  obtain ⟨piece, -, hpiece⟩ := List.mem_map.mp hmem
  by_contra hno
  rw [Packet.carried, if_neg hno] at hpiece
  cases hpiece

namespace FileHost

variable {h : FileHost} {b : Storage} {fileName path : Name}

/-- The host after the packets have been written through a stream. -/
def storeOn (h : FileHost) (b : Storage) (fileName path : Name) (packets : List Packet) :
    FileHost :=
  { h with
    machine := ((OutStream.openFile b h.machine (h.writePath fileName path)).afterAll
      (writes h.beyond packets)).close h.machine }

/-- **`write_file` always says that all is well.** -/
theorem writeFileOn_some (packets : List Packet) :
    h.writeFileOn b fileName (packets.map some) path
      = .ok (true, h.storeOn b fileName path packets) := by
  rw [writeFileOn, writeLoop_some _ (OutStream.openFile_exceptions ..)]
  rfl

theorem writeFileOn_none {fileData : List (Option Packet)} (hnone : none ∈ fileData) :
    h.writeFileOn b fileName fileData path = .error .nullPointer := by
  rw [writeFileOn, writeLoop_none _ (OutStream.openFile_exceptions ..) hnone]

/-- Where nothing fails this is `writeFile`. -/
theorem writeFileOn_flawless {packets : List Packet}
    (hfits : (writes h.beyond packets).flatten.length < 2 ^ 64) :
    h.writeFileOn .flawless fileName (packets.map some) path
      = h.writeFile fileName (packets.map some) path := by
  rw [writeFileOn_some, writeFile_some, storeOn, OutStream.close_flawless _ _ hfits, store,
    List.flatMap_def, writes]

/-- The file at a path string holds the data of some packets, all of which have some. -/
def Holds (h : FileHost) (s : Name) (packets : List Packet) : Prop :=
  ∃ pieces : List (List UInt8), packets.map Packet.carried = pieces.map some ∧
    (h.machine.stat s).map (fun x ↦ x.contents.bytes) = some pieces.flatten

/-- The packets, none of which is overfull, land where `write_file` writes them. -/
def Lands (h : FileHost) (b : Storage) (fileName path : Name) (packets : List Packet) : Prop :=
  (∀ p ∈ packets, p.dataSize.toNat ≤ packetSize) ∧
    OutStream.Lands b h.machine (h.writePath fileName path) (writes h.beyond packets)

/-- **What is stored** is there exactly if it lands. -/
theorem holds_storeOn (packets : List Packet) :
    (h.storeOn b fileName path packets).Holds (h.writePath fileName path) packets ↔
      h.Lands b fileName path packets := by
  constructor
  · rintro ⟨pieces, hpieces, hstat⟩
    have hle := le_of_carried hpieces
    obtain rfl := List.map_injective_iff.mpr (Option.some_injective _)
      ((map_carried h.beyond hle).symm.trans hpieces)
    exact ⟨hle, (OutStream.stat_close_eq_iff ..).mp hstat⟩
  · rintro ⟨hle, hlands⟩
    exact ⟨writes h.beyond packets, map_carried h.beyond hle,
      (OutStream.stat_close_eq_iff ..).mpr hlands⟩

end FileHost

/-! ## What the handler acknowledges

`receive_file` sends on as its acknowledgement what `write_file` has returned, so both answers are
judged by the same file. -/

/-- The operations of a file handler on a storage that may fail. -/
def FileOp.execOn (b : Storage) : (o : FileOp) → FileHost → Except Exn (o.Res × FileHost)
  | writeFile fileName fileData path, h => h.writeFileOn b fileName fileData path
  | o, h => o.exec h

/-- **The answer of `write_file` and of the handler**: `true` means that the file holds the packets,
and after `false` nothing is left of it. -/
structure FileHost.TellsTruth (h : FileHost) (b : Storage) (fileName : Name)
    (fileData : List (Option Packet)) (path : Name) : Prop where
  /-- After `true` the file holds the packets. -/
  stored : ∀ s, h.writeFileOn b fileName fileData path = .ok (true, s) →
    s.Holds (h.writePath fileName path) (fileData.filterMap id)
  /-- After `false` there is no file. -/
  gone : ∀ s, h.writeFileOn b fileName fileData path = .ok (false, s) →
    s.machine.exists (h.writePath fileName path) = false
  /-- The handler says so only of a file that is stored. -/
  acked : path = [] → ∀ n : UInt32, fileData.length = n.toNat → ∀ acts t r,
    (RequestHandler.receiveFile fileName n).Plays (P := RequestHandler.sig) (FileOp.execOn b)
      RequestHandler.body h (fileData.map fun m ↦ ⟨.packet, m.map ((), ·)⟩) acts t r →
    ⟨true⟩ ∈ RequestHandler.receiver.acks acts →
    t.Holds (h.writePath fileName []) (fileData.filterMap id)

/-- **When `write_file` and the handler tell the truth**: a vector with a null pointer in it is
never written; of any other no packet may be overfull, and all have to land. -/
theorem tellsTruth_iff (h : FileHost) (b : Storage) (fileName : Name)
    (fileData : List (Option Packet)) (path : Name) :
    h.TellsTruth b fileName fileData path ↔
      (none ∉ fileData → h.Lands b fileName path (fileData.filterMap id)) := by
  have hsnd : (fileData.map (Option.map ((), ·))).map (Option.map Prod.snd) = fileData := by
    simp [Function.comp_def]
  have houtcomes : (fileData.map fun m ↦ ⟨.packet, m.map ((), ·)⟩)
      = (fileData.map (Option.map ((), ·))).map RequestHandler.receiver.outcome := by
    rw [List.map_map]
    rfl
  by_cases hnone : none ∈ fileData
  · refine iff_of_true ⟨?_, ?_, ?_⟩ fun h ↦ absurd hnone h
    · intro s hs
      rw [FileHost.writeFileOn_none hnone] at hs
      cases hs
    · intro s hs
      rw [FileHost.writeFileOn_none hnone] at hs
      cases hs
    · intro hpath n hn acts t r hp hack
      rw [houtcomes] at hp
      obtain ⟨rfl, -, -⟩ := (RequestHandler.plays_receiveFile_none
        ((List.length_map _).trans hn) (hsnd.symm ▸ hnone)).mp hp
      exact absurd hack (by decide)
  · obtain ⟨packets, rfl⟩ := exists_eq_map_some hnone
    have hid : (packets.map some).filterMap id = packets := by simp
    rw [hid, forall_prop_of_true hnone, ← FileHost.holds_storeOn]
    constructor
    · intro htrue
      have hstored := htrue.stored _ (FileHost.writeFileOn_some packets)
      rwa [hid] at hstored
    · intro hholds
      refine ⟨?_, ?_, ?_⟩
      · intro s hs
        rw [FileHost.writeFileOn_some] at hs
        cases hs
        rwa [hid]
      · intro s hs
        rw [FileHost.writeFileOn_some] at hs
        cases hs
      · rintro rfl n hn acts t r hp -
        rw [houtcomes] at hp
        obtain ⟨-, rfl, -⟩ := (RequestHandler.plays_receiveFile ((List.length_map _).trans hn) hsnd
          (FileHost.writeFileOn_some packets)).mp hp
        rwa [hid]

/-- A packet of one byte. -/
def onePacket : Packet := ⟨0, 1, [1]⟩

/-- A file in a directory that does not exist is stored nowhere, and reported as stored. -/
theorem missing_directory_unreported :
    ¬ ∀ (h : FileHost) (b : Storage) (fileName : Name) (fileData : List (Option Packet))
      (path : Name), h.TellsTruth b fileName fileData path := by
  intro h
  have hstored := (h (rootHost oneFileMachine) .flawless ['d', '/', 'g']
    ([onePacket].map some) []).stored _ (FileHost.writeFileOn_some [onePacket])
  have hnone : oneFileMachine.resolve ['/', 'd', '/', 'g'] = none := by decide
  rcases ((FileHost.holds_storeOn _).mp hstored).2 with ⟨⟨p, hp, -⟩, -⟩ | ⟨-, hstat⟩
  · cases hnone.symm.trans hp
  · exact absurd hstat (by decide)

end Bropdox
