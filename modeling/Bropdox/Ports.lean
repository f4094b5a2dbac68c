import Bropdox.Runs
import Bropdox.Server

/-!
# Giving ports back

`reserve_port` gives slot `i` of the map to port `server_port + i + 1`.  `free_port` looks for the
slot of a port at `server_port - port - 1`: the other way round.  For a port that was given out this
is a huge number, at which `.at` throws; what it does find is the slot of the port that lies as far
above the server's as the one named lies below.

## What is here

* `InRange` are the ports that there are to give out and `slot` the slot that `reserve_port` takes
  for one of them; `le_mirrored` and `mirrored_eq_slot_iff` are the arithmetic of the swapped
  operands, with 32-bit wrap.
* `PortLedger` is the map with the ports reserved and not yet freed, and `PortCall` a call of one of
  the two functions.
* `Lawful` says that a call answers as an allocator should and leaves exactly the other ports
  available, and `Permitted` that it does not run into the slip of `free_port`.
* `PortLedger.Tracks` is the invariant: the slots in use are those of the ports that somebody has.
  `reservePort`, `freePort_inRange`, `next_freePort` and `unlawful_of_mirrored` are the calls one by
  one.
* `lawful_iff_permitted`: all calls of a sequence are lawful if and only if all are permitted.
* `lawful_run` and `reserved_port_not_freed` are a sequence that is permitted, and the shortest one
  that is not.
-/

set_option autoImplicit false

namespace Bropdox

open Slots Runs

/-- A call of a member function of the port manager. -/
inductive PortCall
  /-- `reserve_port` -/
  | reservePort
  /-- `free_port` -/
  | freePort (port : UInt32)
deriving DecidableEq

namespace PortManager

/-- The ports that there are to give out. -/
def InRange (p q : UInt32) : Prop := p < q ∧ q ≤ maxPort

/-- The slot that `reserve_port` takes for a port. -/
def slot (p q : UInt32) : Nat := (q - p - 1).toNat

/-- The slot of a port is free. -/
def Available (m : PortManager) (q : UInt32) : Prop :=
  m.portMap[slot m.serverPort q]? = some false

variable {p q r : UInt32}

theorem slot_of_lt (h : p < q) : slot p q = q.toNat - p.toNat - 1 := by
  have hlt := UInt32.lt_iff_toNat_lt.mp h
  have hq := q.toNat_lt
  rw [slot, UInt32.toNat_sub, UInt32.toNat_sub, UInt32.toNat_one]
  omega

theorem slot_lt (h : InRange p q) : slot p q < (maxPort - p).toNat := by
  have hlt := UInt32.lt_iff_toNat_lt.mp h.1
  have hle := UInt32.le_iff_toNat_le.mp h.2
  rw [slot_of_lt h.1, UInt32.toNat_sub_of_le _ _ (UInt32.le_iff_toNat_le.mpr (by omega))]
  omega

theorem slot_injective (hq : p < q) (hr : p < r) (h : slot p q = slot p r) : q = r := by
  have hlt := UInt32.lt_iff_toNat_lt.mp hq
  have hlt' := UInt32.lt_iff_toNat_lt.mp hr
  rw [slot_of_lt hq, slot_of_lt hr] at h
  exact UInt32.toNat_inj.mp (by omega)

/-- The port of a slot. -/
theorem port_of_slot (hp : p ≤ maxPort) {i : Nat} (hi : i < (maxPort - p).toNat) :
    InRange p (p + .ofNat (i + 1)) ∧ slot p (p + .ofNat (i + 1)) = i := by
  have hmax : maxPort.toNat = 65535 := rfl
  have hle := UInt32.le_iff_toNat_le.mp hp
  rw [UInt32.toNat_sub_of_le _ _ hp] at hi
  have hport : (p + .ofNat (i + 1)).toNat = p.toNat + (i + 1) := by
    rw [UInt32.toNat_add, UInt32.toNat_ofNat', Nat.mod_eq_of_lt (a := i + 1) (by omega),
      Nat.mod_eq_of_lt (by omega)]
  have hlt : p < p + .ofNat (i + 1) := UInt32.lt_iff_toNat_lt.mpr (by omega)
  refine ⟨⟨hlt, UInt32.le_iff_toNat_le.mpr (by omega)⟩, ?_⟩
  rw [slot_of_lt hlt, hport]
  omega

/-- The index that `free_port` computes for a port that is given out is beyond any map. -/
theorem le_mirrored (h : InRange p q) : (maxPort - p).toNat ≤ (p - q - 1).toNat := by
  have hmax : maxPort.toNat = 65535 := rfl
  have hlt := UInt32.lt_iff_toNat_lt.mp h.1
  have hle := UInt32.le_iff_toNat_le.mp h.2
  rw [UInt32.toNat_sub_of_le _ _ (UInt32.le_iff_toNat_le.mpr (by omega)), UInt32.toNat_sub,
    UInt32.toNat_sub, UInt32.toNat_one]
  omega

/-- The index that `free_port` computes for a port is the slot of another one when that one lies as
far above the server's. -/
theorem mirrored_eq_slot_iff : (p - q - 1).toNat = slot p r ↔ p - q = r - p := by
  rw [slot, UInt32.toNat_inj, UInt32.sub_left_inj]

end PortManager

/-! ## Runs of the allocator

The map and the set of ports that it stands for, through any sequence of calls. -/

open PortManager

/-- The port manager, with the ports reserved and not yet freed. -/
structure PortLedger where
  /-- The port manager. -/
  ports : PortManager
  /-- The ports that somebody has. -/
  reserved : Set UInt32 := ∅

namespace PortLedger

/-- The ledger of a new port manager. -/
def opened (p : UInt32) : PortLedger where ports := .new p

/-- What a call leaves.  A reservation that fails hands out nothing, and a port is freed when
`free_port` says so. -/
def next (s : PortLedger) : PortCall → PortLedger
  | .reservePort =>
    let r := s.ports.reservePort
    ⟨r.2, s.reserved ∪ {q | q = r.1 ∧ q ≠ 0}⟩
  | .freePort q =>
    let r := s.ports.freePort q
    ⟨r.2, s.reserved \ {q' | q' = q ∧ r.1 = .ok true}⟩

/-- The answer an allocator has to give: a port that nobody has, or 0 if there is none; and whether
the port to be freed was reserved. -/
def Answers (s : PortLedger) : PortCall → Prop
  | .reservePort =>
    (InRange s.ports.serverPort s.ports.reservePort.1 ∧ s.ports.reservePort.1 ∉ s.reserved) ∨
      (s.ports.reservePort.1 = 0 ∧ ∀ q, InRange s.ports.serverPort q → q ∈ s.reserved)
  | .freePort q =>
    InRange s.ports.serverPort q →
      ∃ b, (s.ports.freePort q).1 = .ok b ∧ (b = true ↔ q ∈ s.reserved)

/-- A call goes as it should. -/
structure Lawful (s : PortLedger) (c : PortCall) : Prop where
  /-- The answer is right. -/
  answer : s.Answers c
  /-- After the call just the ports that nobody has are available. -/
  available : ∀ q, InRange s.ports.serverPort q →
    ((s.next c).ports.Available q ↔ q ∉ (s.next c).reserved)

/-- A call does not run into the slip of `free_port`: the port is none that is given out, and its
mirror image about the server's port is not reserved. -/
def Permitted (s : PortLedger) : PortCall → Prop
  | .reservePort => True
  | .freePort q => ¬ InRange s.ports.serverPort q ∧
      ∀ r ∈ s.reserved, s.ports.serverPort - q ≠ r - s.ports.serverPort

/-- The calls of a run. -/
def step (s : PortLedger) (c : PortCall) : Option PortLedger := some (s.next c)

/-- The map is that of a port manager for this server, and the slots in use are those of the ports
that somebody has. -/
structure Tracks (p : UInt32) (s : PortLedger) : Prop where
  /-- The port of the server. -/
  serverPort : s.ports.serverPort = p
  /-- The port of the server is one that a server can have. -/
  le : p ≤ maxPort
  /-- There is a slot for every port above that of the server. -/
  length : s.ports.portMap.length = (maxPort - p).toNat
  /-- The slots in use are those of the reserved ports. -/
  reserved : ∀ q, q ∈ s.reserved ↔ p < q ∧ slot p q ∈ inUse id s.ports.portMap

variable {p q : UInt32} {s : PortLedger}

section Next

variable {m : PortManager} {r : UInt32} {e : Except Exn Bool}

theorem next_reserved (h : s.ports.reservePort = (r, m)) (hr : r ≠ 0) :
    s.next .reservePort = ⟨m, insert r s.reserved⟩ := by
  rw [next, h]
  congr 1
  ext q
  constructor
  · rintro (hq | ⟨rfl, -⟩)
    · exact .inr hq
    · exact .inl rfl
  · rintro (rfl | hq)
    · exact .inr ⟨rfl, hr⟩
    · exact .inl hq

theorem next_exhausted (h : s.ports.reservePort = (0, m)) :
    s.next .reservePort = ⟨m, s.reserved⟩ := by
  rw [next, h]
  congr 1
  ext q
  constructor
  · rintro (hq | ⟨rfl, hne⟩)
    · exact hq
    · exact absurd rfl hne
  · exact .inl

theorem next_freed (h : s.ports.freePort q = (.ok true, m)) :
    s.next (.freePort q) = ⟨m, s.reserved \ {q}⟩ := by
  rw [next, h]
  congr 2
  ext r
  exact and_iff_left rfl

theorem next_kept (h : s.ports.freePort q = (e, m)) (he : e ≠ .ok true) :
    s.next (.freePort q) = ⟨m, s.reserved⟩ := by
  rw [next, h]
  congr 1
  ext r
  exact ⟨fun hr ↦ hr.1, fun hr ↦ ⟨hr, fun hq ↦ he hq.2⟩⟩

end Next

theorem opened_eq (p : UInt32) :
    opened p = ⟨⟨p, List.replicate (maxPort - p).toNat false⟩, ∅⟩ := by
  rw [opened, PortManager.new]

theorem tracks_opened (hp : p ≤ maxPort) : Tracks p (opened p) := by
  rw [opened_eq]
  refine ⟨rfl, hp, by simp only [List.length_replicate], fun q ↦ ?_⟩
  rw [inUse_replicate rfl]
  simp

namespace Tracks

/-- Whoever has a port has one that is given out. -/
theorem inRange (h : Tracks p s) (hq : q ∈ s.reserved) : InRange p q := by
  obtain ⟨hlt, hslot⟩ := (h.reserved q).mp hq
  have hbound := lt_of_mem_inUse hslot
  have hle := UInt32.le_iff_toNat_le.mp h.le
  have hlt' := UInt32.lt_iff_toNat_lt.mp hlt
  rw [h.length, slot_of_lt hlt, UInt32.toNat_sub_of_le _ _ h.le] at hbound
  exact ⟨hlt, UInt32.le_iff_toNat_le.mpr (by omega)⟩

/-- The ports that nobody has are available. -/
theorem available_iff (h : Tracks p s) (hq : InRange p q) :
    s.ports.Available q ↔ q ∉ s.reserved := by
  have hlt : slot p q < s.ports.portMap.length := h.length ▸ slot_lt hq
  rw [Available, h.serverPort, h.reserved, mem_inUse, List.getElem?_eq_getElem hlt]
  simp [hq.1]

/-- **A reservation** takes a port that nobody has, and there is one unless all are taken. -/
theorem reservePort (h : Tracks p s) :
    s.Answers .reservePort ∧ Tracks p (s.next .reservePort) := by
  cases hfree : firstFree id s.ports.portMap with
  | none =>
    have hres : s.ports.reservePort = (0, s.ports) := by rw [PortManager.reservePort, hfree]
    rw [next_exhausted hres]
    refine ⟨.inr ⟨by rw [hres], fun q hq ↦ ?_⟩, h⟩
    rw [h.serverPort] at hq
    exact (h.reserved q).mpr ⟨hq.1, mem_inUse_of_firstFree_none hfree (h.length ▸ slot_lt hq)⟩
  | some i =>
    obtain ⟨hi, hnot⟩ := firstFree_spec hfree
    obtain ⟨hrange, hslot⟩ := port_of_slot h.le (h.length ▸ hi)
    have hres : s.ports.reservePort =
        (p + .ofNat (i + 1), { s.ports with portMap := s.ports.portMap.set i true }) := by
      simp only [PortManager.reservePort, hfree, h.serverPort]
    have hne : p + .ofNat (i + 1) ≠ 0 := by
      intro h0
      have hlt := UInt32.lt_iff_toNat_lt.mp hrange.1
      rw [h0] at hlt
      exact absurd hlt (Nat.not_lt_zero _)
    constructor
    · refine .inl ?_
      rw [hres, h.serverPort, h.reserved, hslot]
      exact ⟨hrange, fun hmem ↦ hnot hmem.2⟩
    · rw [next_reserved hres hne]
      refine ⟨h.serverPort, h.le, by rw [List.length_set, h.length], fun q ↦ ?_⟩
      rw [Set.mem_insert_iff, inUse_set_used hi rfl, Set.mem_insert_iff, h.reserved]
      constructor
      · rintro (rfl | ⟨hlt, hq⟩)
        · exact ⟨hrange.1, .inl hslot⟩
        · exact ⟨hlt, .inr hq⟩
      · rintro ⟨hlt, hq | hq⟩
        · exact .inl (slot_injective hlt hrange.1 (hq.trans hslot.symm))
        · exact .inr ⟨hlt, hq⟩

/-- `free_port` throws for every port that is given out. -/
theorem freePort_inRange (h : Tracks p s) (hq : InRange p q) :
    s.ports.freePort q = (.error .outOfRange, s.ports) := by
  have hnone : s.ports.portMap[(s.ports.serverPort - q - 1).toNat]? = none := by
    rw [List.getElem?_eq_none_iff, h.length, h.serverPort]
    exact le_mirrored hq
  rw [PortManager.freePort, hnone]

/-- What `free_port` finds in use is the slot of a port that somebody has, and that the one named
mirrors. -/
theorem exists_mirror (h : Tracks p s) (hused : (p - q - 1).toNat ∈ inUse id s.ports.portMap) :
    ∃ r ∈ s.reserved, slot p r = (p - q - 1).toNat := by
  obtain ⟨hrange, hslot⟩ := port_of_slot h.le (h.length ▸ lt_of_mem_inUse hused)
  exact ⟨_, (h.reserved _).mpr ⟨hrange.1, hslot.symm ▸ hused⟩, hslot⟩

/-- For a port that mirrors none that somebody has `free_port` changes nothing. -/
theorem next_freePort (h : Tracks p s) (hq : ∀ r ∈ s.reserved, p - q ≠ r - p) :
    s.next (.freePort q) = s := by
  have hnot : s.ports.portMap[(p - q - 1).toNat]? ≠ some true := by
    intro hget
    obtain ⟨r, hr, hslot⟩ := h.exists_mirror (q := q) ⟨true, hget, rfl⟩
    exact hq r hr (mirrored_eq_slot_iff.mp hslot.symm)
  cases hget : s.ports.portMap[(p - q - 1).toNat]? with
  | none =>
    exact next_kept (e := .error .outOfRange)
      (by simp only [PortManager.freePort, h.serverPort, hget])
      (by simp)
  | some b =>
    cases b with
    | false =>
      exact next_kept (e := .ok false) (by simp only [PortManager.freePort, h.serverPort, hget])
        (by simp)
    | true => exact absurd hget hnot

/-- For a port that mirrors one that somebody has, `free_port` makes that one available. -/
theorem unlawful_of_mirrored {r : UInt32} (h : Tracks p s) (hr : r ∈ s.reserved)
    (hq : p - q = r - p) : ¬ s.Lawful (.freePort q) := by
  intro hlawful
  have hrange := h.inRange hr
  have hslot : (p - q - 1).toNat = slot p r := mirrored_eq_slot_iff.mpr hq
  have hlt : slot p r < s.ports.portMap.length := h.length ▸ slot_lt hrange
  have hget : s.ports.portMap[slot p r]? = some true := by
    obtain ⟨b, hb, hused⟩ := ((h.reserved r).mp hr).2
    rw [hb]
    exact congrArg some hused
  have hfree : s.ports.freePort q =
      (.ok true, { s.ports with portMap := s.ports.portMap.set (slot p r) false }) := by
    simp only [PortManager.freePort, h.serverPort, hslot, hget]
  have hne : r ≠ q := by
    rintro rfl
    -- what is given out has no slot at its mirrored index
    have hle := le_mirrored hrange
    rw [hslot, ← h.length] at hle
    omega
  have havail := hlawful.available r (h.serverPort ▸ hrange)
  rw [next_freed hfree, Available, h.serverPort, List.getElem?_set_self hlt] at havail
  exact havail.mp rfl ⟨hr, hne⟩

end Tracks

/-- A call is lawful exactly if it is permitted. -/
theorem Tracks.lawful_iff (h : Tracks p s) (c : PortCall) :
    (s.Lawful c ↔ s.Permitted c) ∧ (s.Permitted c → Tracks p (s.next c)) := by
  cases c with
  | reservePort =>
    obtain ⟨hanswer, hnext⟩ := h.reservePort
    refine ⟨⟨fun _ ↦ trivial, fun _ ↦ ⟨hanswer, fun q hq ↦ ?_⟩⟩, fun _ ↦ hnext⟩
    exact hnext.available_iff (h.serverPort ▸ hq)
  | freePort q =>
    refine ⟨⟨fun hlawful ↦ ⟨fun hrange ↦ ?_, fun r hr hq ↦ ?_⟩,
      fun hperm ↦ ⟨fun hrange ↦ ?_, ?_⟩⟩, ?_⟩
    · have hanswer := hlawful.answer hrange
      rw [h.freePort_inRange (h.serverPort ▸ hrange)] at hanswer
      obtain ⟨b, hb, -⟩ := hanswer
      cases hb
    · rw [h.serverPort] at hq
      exact h.unlawful_of_mirrored hr hq hlawful
    · exact absurd hrange hperm.1
    · rw [h.next_freePort (h.serverPort ▸ hperm.2)]
      exact fun r hr ↦ h.available_iff (h.serverPort ▸ hr)
    · intro hperm
      rw [h.next_freePort (h.serverPort ▸ hperm.2)]
      exact h

/-- **The allocator keeps its promises as long as `free_port` is not asked for a port that is given
out, nor for the mirror image of one that somebody has.** -/
theorem lawful_iff_permitted (hp : p ≤ maxPort) (calls : List PortCall) :
    Along step Lawful calls (opened p) ↔ Along step Permitted calls (opened p) := by
  refine along_iff_along (fun s c h ↦ (Tracks.lawful_iff h c).1) (fun s c s' h hok hs ↦ ?_) calls
    (tracks_opened hp)
  cases hs
  exact (h.lawful_iff c).2 hok

/-- Two ports are reserved, and then something is freed that is no port of this server, and that is
the mirror image of neither. -/
theorem lawful_run :
    Along step Lawful [.reservePort, .reservePort, .freePort 65527] (opened 65530) := by
  have hnext : (((opened 65530).next .reservePort).next .reservePort).reserved
      = {65532, 65531} := by
    rw [next_reserved (s := (opened 65530).next .reservePort) (r := 65532) rfl (by decide),
      next_reserved (s := opened 65530) (r := 65531) rfl (by decide), opened,
      LawfulSingleton.insert_empty_eq]
  refine (lawful_iff_permitted (by decide) _).mpr ?_
  rintro _ ⟨⟩
  refine ⟨trivial, ?_⟩
  rintro _ ⟨⟩
  refine ⟨trivial, ?_⟩
  rintro _ ⟨⟩
  refine ⟨⟨fun h ↦ absurd h.1 (by decide), fun r hr ↦ ?_⟩, trivial⟩
  rw [hnext] at hr
  rcases hr with rfl | rfl <;> decide

/-- A port that has just been reserved cannot be freed. -/
theorem reserved_port_not_freed : ¬ ∀ p : UInt32, p ≤ maxPort → ∀ calls,
    Along step Lawful calls (opened p) := by
  intro h
  have hrun := h 65530 (by decide) [.reservePort, .freePort 65531]
  have hfree := ((hrun _ rfl).2 _ rfl).1
  obtain ⟨b, hb, -⟩ := hfree.answer ⟨by decide, by decide⟩
  revert hb
  cases b with
  | false => decide
  | true => decide

end PortLedger

end Bropdox
