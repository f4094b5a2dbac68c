import Bropdox.FlatHost
import Bropdox.Members
import Mathlib.Data.List.TakeWhile

/-!
# Joining the primary

`make_backup` against the `request_entrance` case of `listen`, and what becomes of a group that
grows by any number of such joins.

## What is here

* `join_endsIn` runs one join.  The newcomer is told its identity and the group, up to the first
  identity 0; the other members are told an identity and the newcomer's address.
* `Cluster` is a primary with its backups and what they have not read yet; it grows by
  `Cluster.Joins`, and its backups handle what they have received.  `Cluster.Reachable` are the
  groups that a new primary can come to have.
* `Cluster.Numbered` is the invariant of the first `2 ^ 32 - 1` joins: the members have the
  identities 1, 2 and so on in the order in which they have joined.  `Numbered.joins` and
  `Numbered.step` keep it.
* `Cluster.admission`: as long as there are fewer than `2 ^ 32` members, a newcomer gets a fresh
  identity that is not 0 and the complete list of those who were there before.
* `admission_second` is the second newcomer, who is sent the first one's entry.
* `identity_wraps`: after that many joins the next identity is 0, which is also what ends the list.

The identity that the members are told is the primary's own, 0, and not the newcomer's, so that the
members' views agree with the primary's only as long as there is nobody to tell; that is the subject
of `Membership.lean`.
-/

set_option autoImplicit false

namespace Bropdox

open FileSystem Session Program ReplicaManager Members

/-! ## One join

The session between the newcomer and the primary, with what the primary sends to others on the
way. -/

/-- A primary that listens, and a newcomer about to join it. -/
def joinStart (P B : Host) : ReplicaPair Unit Bool where
  left := ⟨P, callListen⟩
  right := ⟨B, makeBackup P.ownAddress⟩
  toLeft := some []
  toRight := some []

/-- The members a newcomer takes over: those before the first identity 0. -/
def snapshot (group : OrderedMap UInt32 SockAddr) : List (UInt32 × SockAddr) :=
  group.entries.takeWhile fun e ↦ e.1 ≠ 0

/-- The messages about members. -/
def memberLetters (a : SockAddr) (es : List (UInt32 × SockAddr)) : List (Parcel groupWire) :=
  es.map fun e ↦ letter a .member ⟨e.1, e.2⟩

/-- What ends the list of the members. -/
def terminator : UInt32 × SockAddr := (0, {})

/-- The first identity 0 is that of a member or the one that ends the list. -/
theorem exists_terminator (es : List (UInt32 × SockAddr)) :
    ∃ z rest, es ++ [terminator] = es.takeWhile (fun e ↦ e.1 ≠ 0) ++ (0, z) :: rest := by
  induction es with
  | nil => exact ⟨{}, [], rfl⟩
  | cons e es ih =>
    by_cases he : e.1 = 0
    · refine ⟨e.2, es ++ [terminator], ?_⟩
      rw [List.takeWhile_cons_of_neg (by simpa using he), ← he]
      rfl
    · obtain ⟨z, rest, hes⟩ := ih
      refine ⟨z, rest, ?_⟩
      rw [List.takeWhile_cons_of_pos (by simpa using he), List.cons_append, hes, List.cons_append]

section Join

variable {a b : SockAddr} {α β : Type} {h h' P B : Host} {l : Endpoint groupWire sig α}
  {r : Endpoint groupWire sig β} {i j : Inbox groupWire} {m m' : List (Parcel groupWire)}
  {t : ReplicaPair α β}

/-- The loop that sends the members. -/
theorem left_sendMembers (es : List (UInt32 × SockAddr)) {k : Unit → Prog α} :
    Pair.EndsIn (replicas a b) ⟨⟨h, (sendMembers b es).bind k⟩, r, i, j, m, m'⟩ t ↔
      Pair.EndsIn (replicas a b) ⟨⟨h, k ()⟩, r, i, deliver j (memberLetters a es), m, m'⟩ t := by
  induction es generalizing j with
  | nil => simp [sendMembers, memberLetters]
  | cons e es ih =>
    rw [sendMembers, bind_eq, bind_assoc, left_sendTo, ih, ← deliver_append]
    rfl

/-- The loop that receives them, up to the first identity 0. -/
theorem right_receiveMembers {es : List (UInt32 × SockAddr)} (hes : ∀ e ∈ es, e.1 ≠ 0)
    {c z : SockAddr} {rest : List (Parcel groupWire)} (peer : SockAddr)
    {k : SockAddr → Prog β} :
    Pair.EndsIn (replicas a b) ⟨l, ⟨B, (callReceiveMembers peer).bind k⟩, i,
        some (memberLetters c es ++ letter c .member ⟨0, z⟩ :: rest), m, m'⟩ t ↔
      Pair.EndsIn (replicas a b)
        ⟨l, ⟨{ B with group := es.foldl (fun g e ↦ g.assign e.1 e.2) B.group }, k c⟩, i,
        some rest, m, m'⟩ t := by
  induction es generalizing B peer with
  | nil =>
    rw [right_callReceiveMembers]
    simp [receiveMembers, memberLetters]
  | cons e es ih =>
    rw [right_callReceiveMembers]
    simp only [receiveMembers, memberLetters, List.map_cons, List.cons_append, bind_eq, bind_assoc,
      right_waitFrom, ne_eq, hes e List.mem_cons_self, not_false_eq_true, if_true, enroll,
      right_update]
    exact ih (fun e' he' ↦ hes e' (List.mem_cons_of_mem _ he')) c

/-- The primary after it has admitted a newcomer. -/
def admitted (P : Host) (address : SockAddr) : Host :=
  { P with group := P.group.assign (.ofNat (P.group.size + 1)) address }

/-- The newcomer after it has joined. -/
def joined (P B : Host) : Host :=
  { B with
    id := .ofNat (P.group.size + 1)
    group := (snapshot P.group).foldl (fun g e ↦ g.assign e.1 e.2) B.group }

/-- What the primary tells its group about a newcomer. -/
def notices (P : Host) (address : SockAddr) : List (Parcel groupWire) :=
  toAll .rmOperation ⟨.newMember⟩ P.group.values ++ toAll .member ⟨P.id, address⟩ P.group.values

/-- The session of a join, `rest` being what follows the first identity 0. -/
theorem joinStart_endsIn (hprimary : P.primary = true) {z : SockAddr}
    {rest : List (UInt32 × SockAddr)}
    (hes : P.group.entries ++ [terminator] = snapshot P.group ++ (0, z) :: rest)
    {t : ReplicaPair Unit Bool} :
    (joinStart P B).EndsIn (replicas P.ownAddress B.ownAddress) t ↔
      Pair.EndsIn (replicas P.ownAddress B.ownAddress)
        ⟨⟨admitted P B.ownAddress, callListen⟩, ⟨joined P B, .ret true⟩, some [],
          some (memberLetters P.ownAddress rest ++
            forPeer P.ownAddress B.ownAddress (notices P B.ownAddress)),
          forOthers B.ownAddress (notices P B.ownAddress), []⟩ t := by
  have hsnap : ∀ e ∈ snapshot P.group, e.1 ≠ 0 := fun e he ↦ by
    simpa using List.mem_takeWhile_imp he
  have hletters : memberLetters P.ownAddress P.group.entries ++
      [letter P.ownAddress .member ⟨0, {}⟩]
        = memberLetters P.ownAddress (snapshot P.group) ++
          letter P.ownAddress .member ⟨0, z⟩ :: memberLetters P.ownAddress rest := by
    have hmap := congrArg (memberLetters P.ownAddress) hes
    simp only [memberLetters, List.map_append, List.map_cons, List.map_nil] at hmap
    exact hmap
  rw [joinStart, ← bind_ret callListen, left_callListen, makeBackup]
  simp only [bind_eq, Program.bind_assoc, right_sendTo, deliver_some, List.nil_append,
    ReplicaManager.listen,
    left_waitFrom, expect_some, ret_bind, serve, requestEntrance, left_get, hprimary, if_true,
    left_sendTo, left_sendMembers, right_waitFrom, right_update]
  rw [hletters, right_receiveMembers hsnap]
  simp only [right_sendTo, deliver_some, List.nil_append, left_wait, Program.bind_assoc,
    left_multicast, enroll, left_update, pure_eq, ret_bind, if_true, List.append_assoc]
  rw [notices, forPeer_append, forOthers_append]
  rfl

/-- **A join comes to its end**: the newcomer has its identity and the members before the first
identity 0, the primary has the newcomer, and the members have been told. -/
theorem join_endsIn (hprimary : P.primary = true) :
    ∃ unread, (snapshot P.group = P.group.entries →
        unread = forPeer P.ownAddress B.ownAddress (notices P B.ownAddress)) ∧
      (joinStart P B).EndsIn (replicas P.ownAddress B.ownAddress)
        ⟨⟨admitted P B.ownAddress, listen⟩, ⟨joined P B, .ret true⟩, some [], some unread,
          forOthers B.ownAddress (notices P B.ownAddress), []⟩ := by
  obtain ⟨z, rest, hes⟩ := exists_terminator P.group.entries
  refine ⟨memberLetters P.ownAddress rest ++
    forPeer P.ownAddress B.ownAddress (notices P B.ownAddress), fun hall ↦ ?_, ?_⟩
  · have htail : [terminator] = (0, z) :: rest := by
      rw [← snapshot, hall] at hes
      exact List.append_cancel_left hes
    obtain rfl : [] = rest := (List.cons.inj htail).2
    rfl
  · rw [joinStart_endsIn hprimary hes, ← bind_ret callListen, left_callListen, bind_ret]
    exact ⟨.refl, Pair.terminal_of_stuck rfl (Endpoint.step_ret ..)⟩

end Join

/-! ## A growing group

The primary and its backups are one system here, in which a join is one step. -/

/-- A backup that has joined. -/
structure Backup where
  /-- The address of its socket. -/
  address : SockAddr
  /-- The state of the backup. -/
  host : Host
  /-- What has arrived there and is unread. -/
  unread : List (Parcel groupWire)

/-- A primary with its backups, in the order in which they have joined. -/
structure Cluster where
  /-- The primary. -/
  primary : Host
  /-- The backups. -/
  backups : List Backup

/-- What was sent from `a` arrives. -/
def Backup.receive (a : SockAddr) (mail : List (Parcel groupWire)) (x : Backup) : Backup :=
  { x with unread := x.unread ++ forPeer a x.address mail }

/-- A backup that listens, and has received some letters. -/
def handleStart (P : Host) (x : Backup) (letters : List (Parcel groupWire)) :
    ReplicaPair Unit Unit where
  left := ⟨P, .ret ()⟩
  right := ⟨x.host, callListen⟩
  toLeft := some []
  toRight := some letters

namespace Cluster

/-- A newcomer at an address that no member has joins the primary. -/
def Joins (c : Cluster) (B : Host) (c' : Cluster) : Prop :=
  (∃ serverAddress files, B = newBackup B.ownAddress serverAddress files) ∧
    (∀ x ∈ c.backups, x.address ≠ B.ownAddress) ∧
    ∃ t, (joinStart c.primary B).EndsIn (replicas c.primary.ownAddress B.ownAddress) t ∧
      t.right.prog = .ret true ∧
      c' = ⟨t.left.host, c.backups.map (Backup.receive c.primary.ownAddress t.mailLeft) ++
        [⟨B.ownAddress, t.right.host, t.toRight.getD []⟩]⟩

/-- The steps of the group: a newcomer joins, or a backup handles some of what it has received and
then listens for more. -/
inductive Step : Cluster → Cluster → Prop
  | join {c c' : Cluster} {B : Host} (hj : c.Joins B c') : Step c c'
  | handle {P : Host} {x : Backup} {letters unread : List (Parcel groupWire)}
      {t : ReplicaPair Unit Unit} (front back : List Backup) (hx : x.unread = letters ++ unread)
      (ht : (handleStart P x letters).EndsIn (replicas P.ownAddress x.address) t)
      (hlisten : t.right.prog = listen) (hread : t.toRight = some []) :
      Step ⟨P, front ++ x :: back⟩ ⟨P, front ++ ⟨x.address, t.right.host, unread⟩ :: back⟩

/-- The groups a new primary can come to have. -/
inductive Reachable : Cluster → Prop
  | initial (ownAddress serverAddress : SockAddr) (files : FileHost) :
      Reachable ⟨makePrimary ownAddress serverAddress files, []⟩
  | step {c c' : Cluster} (hc : Reachable c) (hs : Step c c') : Reachable c'

section Joining

variable {c c' : Cluster} {B : Host}

/-- **What a join does to the group.** -/
theorem Joins.spec (hj : c.Joins B c') (hprimary : c.primary.primary = true) :
    c'.primary = admitted c.primary B.ownAddress ∧ ∃ unread,
      c'.backups = c.backups.map (Backup.receive c.primary.ownAddress
          (notices c.primary B.ownAddress)) ++ [⟨B.ownAddress, joined c.primary B, unread⟩] ∧
      (snapshot c.primary.group = c.primary.group.entries →
        unread = forPeer c.primary.ownAddress B.ownAddress (notices c.primary B.ownAddress)) := by
  obtain ⟨-, hfresh, t, ht, -, rfl⟩ := hj
  obtain ⟨unread, hunread, hend⟩ := join_endsIn (B := B) hprimary
  obtain rfl := ht.settlesIn.unique hend
  refine ⟨rfl, unread, ?_, hunread⟩
  refine congrArg (· ++ _) (List.map_congr_left fun x hx ↦ ?_)
  rw [Backup.receive, Backup.receive, forPeer_forOthers (hfresh x hx)]

/-- A newcomer knows nobody. -/
theorem Joins.group_eq_empty (hj : c.Joins B c') : B.group = .empty := by
  obtain ⟨⟨serverAddress, files, hB⟩, -⟩ := hj
  rw [hB]
  rfl

theorem Joins.fresh (hj : c.Joins B c') : ∀ x ∈ c.backups, x.address ≠ B.ownAddress := hj.2.1

/-- A newcomer can always join. -/
theorem exists_joins (hprimary : c.primary.primary = true) {address : SockAddr}
    (serverAddress : SockAddr) (files : FileHost) (hfresh : ∀ x ∈ c.backups, x.address ≠ address) :
    ∃ c', c.Joins (newBackup address serverAddress files) c' := by
  obtain ⟨unread, -, hend⟩ := join_endsIn (B := newBackup address serverAddress files) hprimary
  exact ⟨_, ⟨serverAddress, files, rfl⟩, hfresh, _, hend, rfl, rfl⟩

end Joining

/-! ## The identities

The invariant of the numbering, and what it gives for one more join. -/

/-- The addresses of the backups, in the order in which they have joined. -/
def addresses (c : Cluster) : List SockAddr := c.backups.map Backup.address

/-- The addresses under the identities 1, 2, and so on. -/
def numbered (addresses : List SockAddr) : List (UInt32 × SockAddr) :=
  addresses.zipIdx.map fun e ↦ (.ofNat (e.2 + 1), e.1)

/-- The state of a primary that has numbered its backups. -/
structure Numbered (c : Cluster) : Prop where
  /-- The host of the group is a primary. -/
  primary : c.primary.primary = true
  /-- The group, as long as the identities last. -/
  entries : c.backups.length < 2 ^ 32 → c.primary.group.entries = numbered c.addresses

theorem numbered_concat (as : List SockAddr) (a : SockAddr) :
    numbered (as ++ [a]) = numbered as ++ [(.ofNat (as.length + 1), a)] := by
  simp [numbered, List.zipIdx_append]

@[simp] theorem length_numbered (as : List SockAddr) : (numbered as).length = as.length := by
  simp [numbered]

@[simp] theorem length_addresses (c : Cluster) : c.addresses.length = c.backups.length :=
  List.length_map ..

theorem toNat_ofNat_succ {n : Nat} (hn : n + 1 < 2 ^ 32) : (UInt32.ofNat (n + 1)).toNat = n + 1 :=
  UInt32.toNat_ofNat_of_lt' hn

/-- The identities do not reach beyond the number of the members. -/
theorem toNat_of_mem_numbered {as : List SockAddr} (hlen : as.length < 2 ^ 32)
    {e : UInt32 × SockAddr} (he : e ∈ numbered as) : 0 < e.1.toNat ∧ e.1.toNat ≤ as.length := by
  obtain ⟨⟨a, k⟩, hk, rfl⟩ := List.mem_map.mp he
  have hlt : k < as.length := by simpa using (List.mem_zipIdx hk).2.1
  rw [toNat_ofNat_succ (by omega)]
  omega

section Numbering

variable {c c' : Cluster} {B : Host}

/-- The identities of the members are smaller than the next one. -/
theorem Numbered.lt_next (hc : c.Numbered) (hlen : c.backups.length + 1 < 2 ^ 32)
    {e : UInt32 × SockAddr} (he : e ∈ c.primary.group.entries) :
    e.1 < .ofNat (c.primary.group.size + 1) := by
  have hentries := hc.entries (by omega)
  rw [hentries] at he
  have hbound := toNat_of_mem_numbered (by simpa using by omega) he
  rw [OrderedMap.size, hentries, UInt32.lt_iff_toNat_lt, length_numbered, length_addresses,
    toNat_ofNat_succ hlen]
  simp only [length_addresses] at hbound
  omega

/-- The list a newcomer is sent is not cut short. -/
theorem Numbered.snapshot (hc : c.Numbered) (hlen : c.backups.length < 2 ^ 32) :
    snapshot c.primary.group = c.primary.group.entries := by
  refine List.takeWhile_eq_self_iff.mpr fun e he ↦ ?_
  rw [hc.entries hlen] at he
  have hbound := toNat_of_mem_numbered (by simpa using hlen) he
  have hne : e.1 ≠ 0 := fun h0 ↦ by simp [h0] at hbound
  simpa using hne

theorem Joins.addresses (hj : c.Joins B c') (hprimary : c.primary.primary = true) :
    c'.addresses = c.addresses ++ [B.ownAddress] := by
  obtain ⟨-, unread, hbackups, -⟩ := hj.spec hprimary
  simp [Cluster.addresses, hbackups, Backup.receive]

/-- A join keeps the numbering. -/
theorem Numbered.joins (hc : c.Numbered) (hj : c.Joins B c') : c'.Numbered := by
  obtain ⟨hP, unread, hbackups, -⟩ := hj.spec hc.primary
  have hlen : c'.backups.length = c.backups.length + 1 := by simp [hbackups]
  refine ⟨hP ▸ hc.primary, fun hn ↦ ?_⟩
  have hentries := hc.entries (by omega)
  rw [hP, hj.addresses hc.primary, numbered_concat, admitted,
    OrderedMap.entries_assign_of_forall_lt _ fun e he ↦ hc.lt_next (by omega) he, OrderedMap.size,
    hentries]
  simp

/-- What the backups do leaves the numbering alone. -/
theorem Numbered.step (hc : c.Numbered) (hs : Step c c') : c'.Numbered := by
  cases hs with
  | join hj => exact hc.joins hj
  | handle front back hx ht hlisten hread =>
    refine ⟨hc.primary, fun hn ↦ ?_⟩
    have hentries := hc.entries (by simpa using hn)
    simpa [Cluster.addresses] using hentries

/-- **The members are numbered in the order in which they have joined.** -/
theorem Reachable.numbered (hc : c.Reachable) : c.Numbered := by
  induction hc with
  | initial => exact ⟨rfl, fun _ ↦ rfl⟩
  | step _ hs ih => exact ih.step hs

end Numbering

/-- What a join of `B` that leads to `c'` is to give the newcomer, in a group `c`. -/
def Admits (c : Cluster) (B : Host) (c' : Cluster) : Prop :=
  ∃ newcomer, c'.backups.getLast? = some newcomer ∧ newcomer.address = B.ownAddress ∧
    newcomer.host.id.toNat = c.backups.length + 1 ∧ newcomer.host.id ≠ 0 ∧
    c.primary.group.get? newcomer.host.id = none ∧ newcomer.host.group = c.primary.group

/-- **Admission hands out fresh identities and complete lists**, to fewer than `2 ^ 32` members. -/
theorem admission {c : Cluster} (hc : c.Reachable) (hn : c.backups.length < 2 ^ 32) :
    c.primary.group.entries = numbered c.addresses ∧
      ∀ B c', c.Joins B c' → c'.backups.length < 2 ^ 32 → c.Admits B c' := by
  have hnum := hc.numbered
  refine ⟨hnum.entries hn, fun B c' hj hn' ↦ ?_⟩
  obtain ⟨-, unread, hbackups, -⟩ := hj.spec hnum.primary
  have hlen : c.backups.length + 1 < 2 ^ 32 := by simpa [hbackups] using hn'
  have hsize : c.primary.group.size = c.backups.length := by
    rw [OrderedMap.size, hnum.entries hn, length_numbered, length_addresses]
  have hid : (joined c.primary B).id.toNat = c.backups.length + 1 := by
    show (UInt32.ofNat (c.primary.group.size + 1)).toNat = _
    rw [hsize, toNat_ofNat_succ hlen]
  refine ⟨⟨B.ownAddress, joined c.primary B, unread⟩, by simp [hbackups], rfl, hid, ?_, ?_, ?_⟩
  · intro h0
    rw [h0] at hid
    simp at hid
  · refine Option.eq_none_iff_forall_ne_some.mpr fun a ha ↦ ?_
    exact lt_irrefl _ (hnum.lt_next hlen (OrderedMap.get?_eq_some.mp ha))
  · show (joined c.primary B).group = _
    rw [joined, hnum.snapshot hn, hj.group_eq_empty]
    exact OrderedMap.foldl_assign_entries _

/-! ## Particular groups

A group of two, and one that has used up its identities. -/

/-- The group after one more has joined. -/
def grown (c : Cluster) (address : SockAddr) : Cluster where
  primary := admitted c.primary address
  backups := c.backups.map (Backup.receive c.primary.ownAddress (notices c.primary address)) ++
    [⟨address, joined c.primary (newBackup address {} (blank ['s'])),
      forPeer c.primary.ownAddress address (notices c.primary address)⟩]

section Growing

variable {c : Cluster} {address : SockAddr}

theorem Numbered.joins_grown (hc : c.Numbered) (hlen : c.backups.length < 2 ^ 32)
    (hfresh : ∀ x ∈ c.backups, x.address ≠ address) :
    c.Joins (newBackup address {} (blank ['s'])) (c.grown address) := by
  obtain ⟨⟨P, xs⟩, hj⟩ := exists_joins hc.primary {} (blank ['s']) hfresh
  obtain ⟨hP, unread, hxs, hunread⟩ := hj.spec hc.primary
  obtain rfl : P = _ := hP
  obtain rfl : xs = _ := hxs
  obtain rfl := hunread (hc.snapshot hlen)
  exact hj

theorem Reachable.grown (hc : c.Reachable) (hlen : c.backups.length < 2 ^ 32)
    (hfresh : ∀ x ∈ c.backups, x.address ≠ address) : (c.grown address).Reachable :=
  hc.step (.join (hc.numbered.joins_grown hlen hfresh))

end Growing

/-- A new primary. -/
def founded : Cluster := ⟨makePrimary ⟨1, 5001⟩ ⟨1, 5000⟩ (blank ['s']), []⟩

theorem reachable_founded : founded.Reachable := .initial ..

/-- The primary with its first backup. -/
def accompanied : Cluster := founded.grown ⟨2, 5001⟩

theorem reachable_accompanied : accompanied.Reachable :=
  reachable_founded.grown (Nat.two_pow_pos _) nofun

/-- The second newcomer, who is sent the first one's entry. -/
theorem admission_second : accompanied.primary.group.entries = numbered [⟨2, 5001⟩] ∧
    accompanied.Admits (newBackup ⟨3, 5001⟩ {} (blank ['s'])) (accompanied.grown ⟨3, 5001⟩) := by
  have hone : accompanied.backups.length < 2 ^ 32 := Nat.one_lt_two_pow (by decide)
  have htwo : (accompanied.grown ⟨3, 5001⟩).backups.length < 2 ^ 32 :=
    show 2 < 2 ^ 32 by decide
  have hfresh : ∀ x ∈ accompanied.backups, x.address ≠ ⟨3, 5001⟩ := by
    intro x hx
    obtain rfl := List.mem_singleton.mp hx
    decide
  obtain ⟨hentries, hall⟩ := admission reachable_accompanied hone
  exact ⟨hentries, hall _ _ (reachable_accompanied.numbered.joins_grown hone hfresh) htwo⟩

/-- The group grows as long as there are addresses. -/
theorem exists_reachable_of_length {n : Nat} (hn : n < 2 ^ 32) :
    ∃ c : Cluster, c.Reachable ∧ c.backups.length = n ∧
      ∀ x ∈ c.backups, ∃ k < n, x.address = ⟨.ofNat k, 5001⟩ := by
  induction n with
  | zero => exact ⟨founded, reachable_founded, rfl, nofun⟩
  | succ n ih =>
    obtain ⟨c, hc, hlen, haddr⟩ := ih (by omega)
    have hfresh : ∀ x ∈ c.backups, x.address ≠ ⟨.ofNat n, 5001⟩ := by
      intro x hx heq
      obtain ⟨k, hk, hxk⟩ := haddr x hx
      have hnat := congrArg UInt32.toNat (SockAddr.mk.inj (hxk.symm.trans heq)).1
      rw [UInt32.toNat_ofNat_of_lt' (show k < 2 ^ 32 by omega),
        UInt32.toNat_ofNat_of_lt' (show n < 2 ^ 32 by omega)] at hnat
      omega
    refine ⟨_, hc.grown (by omega) hfresh, by simp [Cluster.grown, hlen], fun x hx ↦ ?_⟩
    rw [Cluster.grown, List.mem_append, List.mem_map, List.mem_singleton] at hx
    rcases hx with ⟨y, hy, rfl⟩ | rfl
    · obtain ⟨k, hk, hyk⟩ := haddr y hy
      exact ⟨k, by omega, hyk⟩
    · exact ⟨n, by omega, rfl⟩

/-- **Once the identities are used up, the next newcomer is told the identity 0**, which is also
what ends the list of the members. -/
theorem identity_wraps : ∃ (c c' : Cluster) (B : Host), c.Reachable ∧ c.Joins B c' ∧
    c.backups.length = 2 ^ 32 - 1 ∧ ∃ newcomer, c'.backups.getLast? = some newcomer ∧
      newcomer.host.id = 0 := by
  obtain ⟨c, hc, hlen, haddr⟩ := exists_reachable_of_length (n := 2 ^ 32 - 1) (by decide)
  have hfresh : ∀ x ∈ c.backups, x.address ≠ ⟨0, 1⟩ := by
    intro x hx heq
    obtain ⟨k, -, hk⟩ := haddr x hx
    exact absurd (SockAddr.mk.inj (hk.symm.trans heq)).2 (by decide)
  have hsize : c.primary.group.size = 2 ^ 32 - 1 := by
    rw [OrderedMap.size, hc.numbered.entries (by omega), length_numbered, length_addresses, hlen]
  refine ⟨c, _, _, hc, hc.numbered.joins_grown (by omega) hfresh, hlen, _,
    List.getLast?_concat .., ?_⟩
  show UInt32.ofNat (c.primary.group.size + 1) = 0
  rw [hsize]
  decide

end Cluster
end Bropdox
