import Bropdox.FileHandler
import Mathlib.Tactic.Ring

/-!
# Cutting a file into packets

The loop of `read_file` cuts the file exactly, and `write_file` puts it together again.  The counter
of the loop is a 64-bit number that wraps at the last subtraction, after which it is no longer
looked at.

## What is here

* `take_readLoop`: the first `n` packets carry the first `n * packetSize` bytes of the file, and
  `flatMap_packetsOf` that all of them together are the file.
* `getElem?_readLoop`: the packets one by one, and `sum_dataSize_readLoop`: their sizes add up.
* `WellCut` says of the packets of a file that the number of each is its place and that all but the
  last are full.
* `chunking_round_trips`: `write_file` writes what `read_file` has read, whatever the file, and the
  packets between the two are well cut.
* `at?_of_read_written`: where the target can be opened it then holds the contents, so that a file
  that is read and written again is the same file.
* `FileHost.announced` and `listedCount` are the counts that are sent along, and `WellCounted` says
  of the former that it is positive and right.
-/

set_option autoImplicit false

namespace Bropdox

open FileSystem Rounding

theorem packetSize_eq : packetSize = 16384 := rfl

theorem toNat_dataSize {fileSize : UInt64} :
    (dataSize fileSize).toNat = min packetSize fileSize.toNat := by
  have hps : (UInt64.ofNat packetSize).toNat = packetSize := rfl
  rw [dataSize]
  split
  · rename_i h
    have h' : packetSize < fileSize.toNat := by rw [← hps]; exact UInt64.lt_iff_toNat_lt.mp h
    rw [show (UInt32.ofNat packetSize).toNat = packetSize from rfl]
    omega
  · rename_i h
    have h' : fileSize.toNat ≤ packetSize := by
      rw [← hps]; exact UInt64.le_iff_toNat_le.mp (UInt64.not_lt.mp h)
    have hlt : fileSize.toNat < 2 ^ 32 := lt_of_le_of_lt h' (by decide)
    rw [UInt64.toNat_toUInt32, Nat.mod_eq_of_lt hlt]
    omega

variable (beyond : Packet → Nat → UInt8)

/-- Of a packet that states the number of its bytes, just these are written. -/
theorem Packet.written_of_length {p : Packet} (hle : p.data.length ≤ packetSize)
    (hsize : p.dataSize.toNat = p.data.length) : p.written beyond = p.data := by
  rw [Packet.written_of_le beyond (hsize ▸ hle), hsize, Packet.buffer, List.take_take,
    Nat.min_eq_left hle, List.take_left' rfl]

/-- The packet at the head of the loop carries the next `packetSize` bytes, or what there is. -/
theorem written_head {rest : List UInt8} {fileSize : UInt64} (h : fileSize.toNat = rest.length)
    (i : UInt32) :
    Packet.written beyond ⟨i, dataSize fileSize, rest.take packetSize⟩ = rest.take packetSize := by
  refine Packet.written_of_length beyond (List.length_take_le ..) ?_
  show (dataSize fileSize).toNat = (rest.take packetSize).length
  rw [toNat_dataSize, h, List.length_take]

/-- While a whole packet is left the counter does not wrap. -/
theorem toNat_sub_packetSize {fileSize : UInt64} {n : Nat} (h : fileSize.toNat = n)
    (hn : packetSize ≤ n) : (fileSize - UInt64.ofNat packetSize).toNat = n - packetSize := by
  have hps : (UInt64.ofNat packetSize).toNat = packetSize := rfl
  rw [UInt64.toNat_sub_of_le _ _ (UInt64.le_iff_toNat_le.mpr (by omega)), h, hps]

theorem length_readLoop (rest : List UInt8) (fileSize : UInt64) (i : UInt32) :
    (readLoop rest fileSize i).length = rest.length / packetSize + 1 := by
  induction rest, fileSize, i using readLoop.induct with
  | case1 rest fileSize i ih =>
    rw [readLoop]
    by_cases hle : packetSize ≤ rest.length
    · rw [if_pos hle, List.length_cons, ih hle, List.length_drop,
        Nat.div_eq_sub_div (by decide : 0 < packetSize) hle]
    · rw [if_neg hle, Nat.div_eq_of_lt (by omega)]
      rfl

/-- **The first `n` packets are the first `n * packetSize` bytes.** -/
theorem take_readLoop (rest : List UInt8) (fileSize : UInt64) (i : UInt32)
    (h : fileSize.toNat = rest.length) (n : Nat) :
    ((readLoop rest fileSize i).take n).flatMap (Packet.written beyond) =
      rest.take (n * packetSize) := by
  induction rest, fileSize, i using readLoop.induct generalizing n with
  | case1 rest fileSize i ih =>
    rw [readLoop]
    cases n with
    | zero => simp
    | succ n =>
      rw [List.take_succ_cons, List.flatMap_cons, written_head beyond h]
      by_cases hle : packetSize ≤ rest.length
      · have hsub := toNat_sub_packetSize h hle
        rw [if_pos hle, ih hle (by rw [hsub, List.length_drop]), Nat.succ_mul, Nat.add_comm,
          List.take_add]
      · have hrest : rest.length ≤ (n + 1) * packetSize := by rw [Nat.succ_mul]; omega
        rw [if_neg hle, List.take_nil, List.flatMap_nil, List.append_nil,
          List.take_of_length_le (by omega), List.take_of_length_le hrest]

theorem toNat_ofNat_length (c : Contents) :
    (UInt64.ofNat c.bytes.length).toNat = c.bytes.length := by
  rw [UInt64.toNat_ofNat', Nat.mod_eq_of_lt c.fits]

theorem length_packetsOf (c : Contents) :
    (packetsOf c).length = c.bytes.length / packetSize + 1 := length_readLoop ..

theorem packetsOf_ne_nil (c : Contents) : packetsOf c ≠ [] :=
  List.ne_nil_of_length_eq_add_one (length_packetsOf c)

theorem take_packetsOf (c : Contents) (n : Nat) :
    ((packetsOf c).take n).flatMap (Packet.written beyond) = c.bytes.take (n * packetSize) :=
  take_readLoop _ _ _ _ (toNat_ofNat_length c) n

/-- **Cutting loses nothing**: all the packets together are the file. -/
theorem flatMap_packetsOf (c : Contents) :
    (packetsOf c).flatMap (Packet.written beyond) = c.bytes := by
  have h := take_packetsOf beyond c (packetsOf c).length
  rw [List.take_length] at h
  rw [h, List.take_of_length_le]
  rw [length_packetsOf, Nat.add_mul, Nat.mul_comm]
  have hdiv := Nat.div_add_mod c.bytes.length packetSize
  have hmod := Nat.mod_lt c.bytes.length (by decide : 0 < packetSize)
  omega

/-! ## Numbers and sizes

The packets one by one, and the round trip. -/

theorem dataSize_eq (fileSize : UInt64) :
    dataSize fileSize = .ofNat (min packetSize fileSize.toNat) := by
  apply UInt32.toNat_inj.mp
  rw [toNat_dataSize, UInt32.toNat_ofNat', Nat.mod_eq_of_lt]
  exact lt_of_le_of_lt (Nat.min_le_left ..) (by decide)

/-- **The packets, one by one**: the `n`-th has the number `n` after the first one's, and what is
left of the file after `n` whole packets. -/
theorem getElem?_readLoop (rest : List UInt8) (fileSize : UInt64) (i : UInt32)
    (h : fileSize.toNat = rest.length) (n : Nat) :
    (readLoop rest fileSize i)[n]? =
      if n * packetSize ≤ rest.length then
        some ⟨i + .ofNat n, .ofNat (min packetSize (rest.length - n * packetSize)),
          (rest.drop (n * packetSize)).take packetSize⟩
      else none := by
  induction rest, fileSize, i using readLoop.induct generalizing n with
  | case1 rest fileSize i ih =>
    rw [readLoop]
    cases n with
    | zero => simp [dataSize_eq, h]
    | succ n =>
      rw [List.getElem?_cons_succ, Nat.succ_mul]
      by_cases hle : packetSize ≤ rest.length
      · have hsub := toNat_sub_packetSize h hle
        have hiff : n * packetSize ≤ rest.length - packetSize
            ↔ n * packetSize + packetSize ≤ rest.length := by omega
        have hnum : i + 1 + UInt32.ofNat n = i + UInt32.ofNat (n + 1) := by
          rw [UInt32.ofNat_add, UInt32.add_assoc, UInt32.add_comm 1]
          rfl
        rw [if_pos hle, ih hle (by rw [hsub, List.length_drop])]
        simp only [List.length_drop, List.drop_drop, hiff, hnum, Nat.sub_sub,
          Nat.add_comm packetSize]
      · rw [if_neg hle, if_neg (by omega), List.getElem?_nil]

theorem getElem?_packetsOf (c : Contents) (n : Nat) :
    (packetsOf c)[n]? =
      if n * packetSize ≤ c.bytes.length then
        some ⟨.ofNat n, .ofNat (min packetSize (c.bytes.length - n * packetSize)),
          (c.bytes.drop (n * packetSize)).take packetSize⟩
      else none := by
  rw [packetsOf, getElem?_readLoop _ _ _ (toNat_ofNat_length c), UInt32.zero_add]

/-- The sizes of the packets add up. -/
theorem sum_dataSize_readLoop (rest : List UInt8) (fileSize : UInt64) (i : UInt32)
    (h : fileSize.toNat = rest.length) :
    ((readLoop rest fileSize i).map fun p ↦ p.dataSize.toNat).sum = rest.length := by
  induction rest, fileSize, i using readLoop.induct with
  | case1 rest fileSize i ih =>
    rw [readLoop, List.map_cons, List.sum_cons, toNat_dataSize, h]
    by_cases hle : packetSize ≤ rest.length
    · have hsub := toNat_sub_packetSize h hle
      rw [if_pos hle, ih hle (by rw [hsub, List.length_drop]), List.length_drop]
      omega
    · rw [if_neg hle, List.map_nil, List.sum_nil]
      omega

/-- What is true of every packet of a file: its number is its place, and all but the last are
full. -/
structure WellCut (packets : List Packet) (i : Nat) (p : Packet) : Prop where
  /-- The number is the place. -/
  num : p.num.toNat = i
  /-- No packet is overfull. -/
  le : p.dataSize.toNat ≤ packetSize
  /-- All but the last are full. -/
  full : i + 1 < packets.length → p.dataSize.toNat = packetSize

/-- **Chunking round-trips**: `write_file` writes what `read_file` has read, whatever the file; and
the packets between them are numbered, and full but for the last. -/
theorem chunking_round_trips {h : FileHost} {f : Name} {x : File}
    (hx : h.machine.stat (h.readPath f) = some x) :
    ∃ r, h.readFile f = .ok r ∧ (r.packets.length < 2 ^ 32 →
      (∀ (s : FileHost) (g path : Name), s.writeFile g (r.packets.map some) path =
        .ok (true, { s with machine := s.machine.write (s.writePath g path) x.contents.bytes })) ∧
      (∀ i p, r.packets[i]? = some p → WellCut r.packets i p) ∧
      (r.packets.map fun p ↦ p.dataSize.toNat).sum = x.size) := by
  refine ⟨_, FileHost.readFile_of_stat hx, fun hfew ↦ ⟨fun s g path ↦ ?_, fun i p hp ↦ ?_, ?_⟩⟩
  · rw [FileHost.writeFile_some, FileHost.store, flatMap_packetsOf]
  · have hi : i < (packetsOf x.contents).length := (List.getElem?_eq_some_iff.mp hp).1
    have hlast : (packetsOf x.contents).length * packetSize ≤
        x.contents.bytes.length + packetSize := by
      rw [length_packetsOf, Nat.succ_mul]
      exact Nat.add_le_add_right (Nat.div_mul_le_self ..) _
    have hsize : ∀ n, (UInt32.ofNat (min packetSize n)).toNat = min packetSize n := fun n ↦ by
      rw [UInt32.toNat_ofNat', Nat.mod_eq_of_lt (lt_of_le_of_lt (Nat.min_le_left ..) (by decide))]
    simp only [getElem?_packetsOf, Option.ite_none_right_eq_some, Option.some.injEq] at hp
    obtain ⟨-, rfl⟩ := hp
    refine ⟨?_, ?_, fun hfull ↦ ?_⟩
    · exact Nat.mod_eq_of_lt (lt_trans hi hfew)
    · rw [hsize]
      exact Nat.min_le_left ..
    · have hroom : (i + 1 + 1) * packetSize ≤ (packetsOf x.contents).length * packetSize :=
        Nat.mul_le_mul_right _ hfull
      simp only [Nat.succ_mul] at hroom
      rw [hsize, Nat.min_eq_left]
      omega
  · exact sum_dataSize_readLoop _ _ _ (toNat_ofNat_length _)

/-- A machine with one file of three bytes, `/f`. -/
def oneFileMachine : Machine where
  disk := .ofList [([['f']], .file ⟨.threeBytes, 0⟩)]
  cwd := []
  clock := Nat.cast
  order := .asStored

/-- A host whose sync directory is the root of a machine. -/
def rootHost (m : Machine) : FileHost where
  machine := m
  syncDir := ['/']

/-- Three bytes are one packet. -/
theorem three_bytes_round_trip :
    ∃ r, (rootHost oneFileMachine).readFile ['/', 'f'] = .ok r ∧
      (r.packets.length < 2 ^ 32 →
        (∀ (s : FileHost) (g path : Name), s.writeFile g (r.packets.map some) path =
          .ok (true, { s with machine := s.machine.write (s.writePath g path) [1, 2, 3] })) ∧
        (∀ i p, r.packets[i]? = some p → WellCut r.packets i p) ∧
        (r.packets.map fun p ↦ p.dataSize.toNat).sum = 3) :=
  chunking_round_trips (x := ⟨.threeBytes, 0⟩) rfl

/-- **A file that is read and written again is the same file**, where it can be opened: the contents
are those of the file that was read, and the time is the time of writing. -/
theorem at?_of_read_written {h s : FileHost} {f g path : Name} {x : File} {r : ReadResult}
    {p : Path} (hx : h.machine.stat (h.readPath f) = some x) (hr : h.readFile f = .ok r)
    (hs : s.machine.resolve (s.writePath g path) = some p) (hp : s.machine.disk.isDir p = false) :
    ∃ s', s.writeFile g (r.packets.map some) path = .ok (true, s') ∧
      s'.machine.disk.at? p = some (.file ⟨x.contents, s.machine.clock 0⟩) := by
  obtain rfl := Except.ok.inj (hr.symm.trans (FileHost.readFile_of_stat hx))
  refine ⟨_, FileHost.writeFile_some .., ?_⟩
  rw [FileHost.store, flatMap_packetsOf, Machine.write_of_resolve hs hp]
  exact Disk.at?_set_self ..

/-- Packets that have arrived are counted. -/
theorem countP_some {γ : Type} (packets : List γ) :
    (packets.map some).countP Option.isSome = packets.length := by
  rw [List.countP_eq_length.mpr (by simp), List.length_map]

/-! ## The announced count

What is said about the number of packets before they are sent. -/

/-- The count a host announces for a file: what its `read_file` reports, in the 32 bits of
`num_packets`. -/
def FileHost.announced (h : FileHost) (c : Contents) : UInt32 := .ofNat (h.reported c.bytes.length)

/-- The packet count a listing gives a file of a given size. -/
def listedCount (size : Nat) : UInt32 := .ofNat (countPackets size)

/-- The count a host announces for a file is positive, and it is the number of its packets. -/
structure WellCounted (h : FileHost) (c : Contents) : Prop where
  /-- The count is positive. -/
  pos : h.announced c ≠ 0
  /-- The announced count is the number of packets. -/
  eq_length : (h.announced c).toNat = (packetsOf c).length

instance (h : FileHost) (c : Contents) : Decidable (WellCounted h c) :=
  decidable_of_iff (h.announced c ≠ 0 ∧ (h.announced c).toNat = (packetsOf c).length)
    ⟨fun hc ↦ ⟨hc.1, hc.2⟩, fun hc ↦ ⟨hc.pos, hc.eq_length⟩⟩

/-- Whether a file is well counted depends on what the host reports only. -/
theorem WellCounted.congr {h h' : FileHost} {c : Contents} (hc : WellCounted h c)
    (hr : h'.reported = h.reported) : WellCounted h' c := by
  have ha : h'.announced c = h.announced c := by rw [FileHost.announced, hr, FileHost.announced]
  exact ⟨ha ▸ hc.pos, ha ▸ hc.eq_length⟩

theorem countPackets_of_lt {size : Nat} (h : size < 2 ^ 24) :
    countPackets size = (size + (packetSize - 1)) / packetSize := by
  rw [countPackets, roundSignificand_of_lt h]

@[simp] theorem listedCount_zero : listedCount 0 = 0 := by
  rw [listedCount, countPackets_of_lt (by decide)]
  rfl

/-- Below the 24 bits of a float, the count of the source is right unless the size is a multiple of
the packet size. -/
theorem wellCounted_of_lt {h : FileHost} (hh : h.reported = countPackets) {c : Contents}
    (hlt : c.bytes.length < 2 ^ 24) (hmod : c.bytes.length % packetSize ≠ 0) :
    WellCounted h c := by
  have hcount : countPackets c.bytes.length = c.bytes.length / packetSize + 1 := by
    rw [countPackets_of_lt hlt]
    rw [packetSize_eq] at hmod ⊢
    omega
  have htoNat : (h.announced c).toNat = c.bytes.length / packetSize + 1 := by
    rw [FileHost.announced, hh, hcount, UInt32.toNat_ofNat', Nat.mod_eq_of_lt]
    rw [packetSize_eq]
    omega
  refine ⟨fun h0 ↦ ?_, by rw [htoNat, length_packetsOf]⟩
  rw [h0] at htoNat
  simp at htoNat

end Bropdox
