import Bropdox.Chunks

/-!
# How many packets are announced

`read_file` makes one packet more than the file has whole packets (`length_packetsOf`), and reports
the size divided by the packet size, rounded up.  These are two computations.  They agree as long as
the size, once it has become a float, is behind the last whole packet and not beyond the next one:
`announces_packets_iff`.  At sizes that a float holds exactly they disagree just on the multiples of
the packet size, of which that of the empty file is the smallest.
-/

set_option autoImplicit false

namespace Bropdox

open FileSystem Rounding

theorem packetSize_pow : packetSize = 2 ^ 14 := rfl

/-- A quotient that is rounded up. -/
theorem ceil_eq_succ_iff {a k : Nat} : (a + (packetSize - 1)) / packetSize = k + 1 ↔
    packetSize * k < a ∧ a ≤ packetSize * k + packetSize := by
  rw [packetSize_eq, Nat.div_eq_iff (by decide)]
  omega

/-- The condition under which a file of this size is announced with as many packets as are made of
it: its float is behind the last whole packet, and not beyond the next one. -/
def CountsRight (size : Nat) : Prop :=
  RoundsInto 24 (packetSize * (size / packetSize)) packetSize size

instance decidableCountsRight (size : Nat) : Decidable (CountsRight size) :=
  inferInstanceAs (Decidable (RoundsInto ..))

theorem countPackets_eq_iff (size : Nat) :
    countPackets size = size / packetSize + 1 ↔ CountsRight size := by
  have hmod := Nat.mod_lt size (by decide : 0 < packetSize)
  have hdiv := Nat.div_add_mod size packetSize
  rw [countPackets, ceil_eq_succ_iff, CountsRight]
  exact roundsInto_iff packetSize_pow (Nat.dvd_mul_right ..) (by omega) (by omega)

/-- Below the 24 bits of a float these are the sizes that are no multiple of the packet size. -/
theorem countsRight_iff_of_lt {size : Nat} (h : size < 2 ^ 24) :
    CountsRight size ↔ size % packetSize ≠ 0 := by
  rw [← countPackets_eq_iff, countPackets_of_lt h, packetSize_eq]
  omega

/-- **The announced count is the number of packets** for the sizes that count right, and for no
others. -/
theorem announces_packets_iff (h : FileHost) (hh : h.reported = countPackets) (f : Name) (x : File)
    (hx : h.machine.stat (h.readPath f) = some x) :
    (∃ r, h.readFile f = .ok r ∧ r.fileSizeInPackets = r.packets.length) ↔
      CountsRight x.size := by
  rw [FileHost.readFile_of_stat hx, hh, ← countPackets_eq_iff]
  constructor
  · rintro ⟨r, hr, hcount⟩
    cases hr
    rw [length_packetsOf] at hcount
    exact hcount
  · intro hcount
    refine ⟨_, rfl, ?_⟩
    rw [length_packetsOf]
    exact hcount

/-- A machine with one empty file, `/f`. -/
def emptyFileMachine : Machine where
  disk := .ofList [([['f']], .file ⟨.empty, 0⟩)]
  cwd := []
  clock := Nat.cast
  order := .asStored

/-- One packet is made of the empty file, and none is announced. -/
theorem empty_file_unannounced :
    ¬ ∀ (h : FileHost) (f : Name) (x : File), h.reported = countPackets →
      h.machine.stat (h.readPath f) = some x →
      ∃ r, h.readFile f = .ok r ∧ r.fileSizeInPackets = r.packets.length := by
  intro h
  have hx : (rootHost emptyFileMachine).machine.stat
      ((rootHost emptyFileMachine).readPath ['/', 'f']) = some ⟨.empty, 0⟩ := rfl
  obtain ⟨r, hr, hcount⟩ := h _ _ _ rfl hx
  rw [FileHost.readFile_of_stat hx] at hr
  cases hr
  rw [length_packetsOf] at hcount
  have hzero : countPackets (File.size ⟨.empty, 0⟩) = 0 := countPackets_of_lt (by decide)
  exact absurd (hzero.symm.trans hcount) (by decide)

/-- A file of three bytes is announced as the one packet it is. -/
theorem three_bytes_announced :
    ∃ r, (rootHost oneFileMachine).readFile ['/', 'f'] = .ok r ∧
      r.fileSizeInPackets = r.packets.length :=
  (announces_packets_iff (rootHost oneFileMachine) rfl ['/', 'f'] ⟨.threeBytes, 0⟩ rfl).mpr
    ((countsRight_iff_of_lt (by decide)).mpr (by decide))

/-! ## In 32 bits

The count is announced as a `uint32_t`.  As sizes have 64 bits the rounding moves it only a little,
so that it wraps exactly where the number of packets does. -/

/-- Rounding a size of 64 bits moves it by less than `2 ^ 26` packets. -/
theorem countPackets_le {size : Nat} (h : size < 2 ^ 64) :
    countPackets size ≤ size / packetSize + 2 ^ 26 + 1 := by
  have hlog : size.log2 < 64 := by
    rcases Nat.eq_zero_or_pos size with rfl | hpos
    · decide
    · exact (Nat.log2_lt (by omega)).mpr h
  have hspacing : spacing 24 size ≤ 2 ^ 40 := Nat.pow_le_pow_right (by decide) (by omega)
  have hround := roundSignificand_le_add 24 size
  rw [countPackets, packetSize_eq]
  omega

/-- What is announced is a number of 32 bits: a file is announced with its packets if its size
counts right and there are not too many of them. -/
theorem wellCounted_iff {h : FileHost} (hh : h.reported = countPackets) {c : Contents} :
    WellCounted h c ↔ CountsRight c.bytes.length ∧ (packetsOf c).length < 2 ^ 32 := by
  have hann : (h.announced c).toNat = countPackets c.bytes.length % 2 ^ 32 := by
    rw [FileHost.announced, hh, UInt32.toNat_ofNat']
  rw [← countPackets_eq_iff, length_packetsOf]
  constructor
  · rintro ⟨-, hlen⟩
    rw [hann, length_packetsOf] at hlen
    have hlt : c.bytes.length / packetSize + 1 < 2 ^ 32 := hlen ▸ Nat.mod_lt _ (by decide)
    have hle := countPackets_le c.fits
    omega
  · rintro ⟨hcount, hlt⟩
    have hlen : (h.announced c).toNat = c.bytes.length / packetSize + 1 := by
      rw [hann, hcount, Nat.mod_eq_of_lt hlt]
    refine ⟨fun h0 ↦ ?_, by rw [hlen, length_packetsOf]⟩
    rw [h0] at hlen
    cases hlen

end Bropdox
