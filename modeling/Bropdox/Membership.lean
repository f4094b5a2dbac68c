import Bropdox.Admission

/-!
# The members' views of the group

A newcomer takes over the group as it is when it joins, and is told of everybody who joins later:
first the operation, then the newcomer's identity and address.  The identity it is told is the
primary's own.  The primary has none, so that everybody who joins later is filed under 0, and the
first backup never learns of an identity 2.

## What is here

* `Notices` is what such a backup has unread: announcements of newcomers, all under the identity 0.
  `Notices.handled` says what it makes of a part of them.
* `Unknowing` is what it knows then, and `Uninformed` the first backup of a group that has others.
* `Stage` follows the first backup through the growth of the group, and `Headed` is the invariant
  with it; `Headed.joins` and `Headed.step` keep it.
* `membership_agrees_iff`: in every group in which everything has been read, the members' views
  agree with the primary's if and only if there is at most one backup.
* `pair` is a group of two backups before and after the first one reads what it is sent.
-/

set_option autoImplicit false

namespace Bropdox

open FileSystem Session Program ReplicaManager Members

/-! ## Notices

What is sent to the members when somebody joins, and how a backup handles it. -/

/-- Newcomers that were all announced under the identity 0. -/
inductive Notices (a : SockAddr) : List (Parcel groupWire) → Prop
  | nil : Notices a []
  | cons (address : SockAddr) {mail : List (Parcel groupWire)} (h : Notices a mail) :
      Notices a (letter a .rmOperation ⟨.newMember⟩ :: letter a .member ⟨0, address⟩ :: mail)

theorem Notices.append {a : SockAddr} {mail mail' : List (Parcel groupWire)} (h : Notices a mail)
    (h' : Notices a mail') : Notices a (mail ++ mail') := by
  induction h with
  | nil => exact h'
  | cons address _ ih => exact .cons address ih

/-- What a backup hears of one newcomer that is in the group once or not at all. -/
theorem notices_of_count_le {P : Host} (hid : P.id = 0) (address : SockAddr) {b : SockAddr}
    (hb : P.group.values.count b ≤ 1) :
    Notices P.ownAddress (forPeer P.ownAddress b (notices P address)) := by
  rw [notices, forPeer_append, forPeer_toAll, forPeer_toAll, hid]
  obtain h0 | h1 : P.group.values.count b = 0 ∨ P.group.values.count b = 1 := by omega
  · rw [h0]
    exact .nil
  · rw [h1]
    exact .cons address .nil

/-- A backup that has read all it has received. -/
theorem handleStart_nil_endsIn (P : Host) (x : Backup) :
    (handleStart P x []).EndsIn (replicas P.ownAddress x.address)
      ⟨⟨P, .ret ()⟩, ⟨x.host, listen⟩, some [], some [], [], []⟩ := by
  rw [handleStart, ← bind_ret callListen, right_callListen, bind_ret]
  exact ⟨.refl, Pair.terminal_of_stuck (Endpoint.step_ret ..) rfl⟩

theorem handleStart_nil {P : Host} {x : Backup} {t : ReplicaPair Unit Unit}
    (ht : (handleStart P x []).EndsIn (replicas P.ownAddress x.address) t) :
    t.right.host = x.host := by
  rw [(handleStart_nil_endsIn P x).settlesIn.unique ht]

/-- An operation that is announced without its member keeps a backup from listening. -/
theorem not_listening_of_newMember {P : Host} {x : Backup} {a : SockAddr}
    {t : ReplicaPair Unit Unit}
    (ht : (handleStart P x [letter a .rmOperation ⟨.newMember⟩]).EndsIn
      (replicas P.ownAddress x.address) t) : t.right.prog ≠ listen := by
  rw [handleStart, ← bind_ret callListen, right_callListen, ReplicaManager.listen] at ht
  simp only [bind_eq, Program.bind_assoc, right_waitFrom, expect_some, ret_bind, serve, waitFor]
    at ht
  rw [(ends_iff_of_terminal (Pair.terminal_of_stuck (Endpoint.step_ret ..)
    (Endpoint.step_wait_nil ..))).mp ht]
  intro heq
  exact absurd (Program.wait.inj heq).1 (by decide)

/-- A backup that has filed a member under the identity 0. -/
def Backup.file (x : Backup) (address : SockAddr) : Backup :=
  { x with host := { x.host with group := x.host.group.assign 0 address } }

/-- A newcomer's announcement, and what comes after it. -/
theorem handleStart_cons {P : Host} {x : Backup} {a address : SockAddr}
    {letters : List (Parcel groupWire)} {t : ReplicaPair Unit Unit} :
    (handleStart P x (letter a .rmOperation ⟨.newMember⟩ :: letter a .member ⟨0, address⟩ ::
        letters)).EndsIn (replicas P.ownAddress x.address) t ↔
      (handleStart P (x.file address) letters).EndsIn
        (replicas P.ownAddress (x.file address).address) t := by
  rw [handleStart, ← bind_ret callListen, right_callListen, ReplicaManager.listen]
  simp only [bind_eq, Program.bind_assoc, right_waitFrom, expect_some, ret_bind, serve, waitFor,
    right_wait, enroll, right_update, pure_eq, if_true, bind_ret]
  rfl

/-- What a backup knows that has heard of no identity but 0. -/
structure Unknowing (h : Host) : Prop where
  /-- The backup was the first to join. -/
  id : h.id = 1
  /-- The members that the backup knows are filed under 0. -/
  keys : ∀ e ∈ h.group.entries, e.1 = 0

/-- **Handling some of the notices** leaves the others, and teaches no identity but 0. -/
theorem Notices.handled {P : Host} {x : Backup} {a : SockAddr}
    {letters unread : List (Parcel groupWire)} {t : ReplicaPair Unit Unit}
    (hn : Notices a (letters ++ unread)) (hx : Unknowing x.host)
    (ht : (handleStart P x letters).EndsIn (replicas P.ownAddress x.address) t)
    (hlisten : t.right.prog = listen) : Notices a unread ∧ Unknowing t.right.host := by
  generalize hmail : letters ++ unread = mail at hn
  induction hn generalizing x letters with
  | nil =>
    obtain ⟨rfl, rfl⟩ := List.append_eq_nil_iff.mp hmail
    rw [handleStart_nil ht]
    exact ⟨.nil, hx⟩
  | cons address hn ih =>
    match letters, hmail with
    | [], hmail =>
      rw [List.nil_append] at hmail
      rw [handleStart_nil ht, hmail]
      exact ⟨.cons address hn, hx⟩
    | [l], hmail =>
      obtain ⟨rfl, -⟩ := List.cons.inj hmail
      exact absurd hlisten (not_listening_of_newMember ht)
    | l :: l' :: letters, hmail =>
      obtain ⟨rfl, htail⟩ := List.cons.inj hmail
      obtain ⟨rfl, hrest⟩ := List.cons.inj htail
      refine ih ?_ (handleStart_cons.mp ht) hrest
      refine ⟨hx.id, fun e he ↦ ?_⟩
      rcases OrderedMap.mem_assign.mp he with rfl | ⟨-, he⟩
      · rfl
      · exact hx.keys e he

/-! ## The first backup

The first backup of a group has joined when there was nobody else, so all it knows of the others is
what it was told. -/

/-- The first backup, in a group that has others. -/
structure Uninformed (P : Host) (x : Backup) : Prop where
  /-- What the backup knows. -/
  host : Unknowing x.host
  /-- What the backup has yet to read. -/
  unread : Notices P.ownAddress x.unread
  /-- The address of the backup is in the group once at most. -/
  once : P.group.values.count x.address ≤ 1
  /-- The primary has a second backup. -/
  second : (P.group.get? 2).isSome

/-- The group of a primary, as far as its first backup is concerned. -/
inductive Stage (P : Host) : List Backup → Prop
  /-- Nobody has joined. -/
  | alone (hP : P.group = .empty) : Stage P []
  /-- One backup has joined. -/
  | one {x : Backup} (hid : x.host.id = 1) (hgroup : x.host.group = .empty) (hread : x.unread = [])
      (hP : P.group.entries = [(1, x.address)]) : Stage P [x]
  /-- More than one backup have joined. -/
  | more {x : Backup} {others : List Backup} (hothers : others ≠ []) (hx : Uninformed P x) :
      Stage P (x :: others)

/-- The first backup when one more joins. -/
theorem Uninformed.joins {P : Host} {x : Backup} (hx : Uninformed P x) (hid : P.id = 0)
    {address : SockAddr} (hne : x.address ≠ address) :
    Uninformed (admitted P address) (x.receive P.ownAddress (notices P address)) where
  host := hx.host
  unread := hx.unread.append (notices_of_count_le hid address hx.once)
  once := (OrderedMap.count_values_assign_le _ _ hne).trans hx.once
  second := by
    show ((P.group.assign (.ofNat (P.group.size + 1)) address).get? 2).isSome
    by_cases h2 : 2 = UInt32.ofNat (P.group.size + 1)
    · rw [h2, OrderedMap.get?_assign_self]
      rfl
    · rw [OrderedMap.get?_assign_of_ne _ _ h2]
      exact hx.second

theorem Stage.uninformed {P : Host} {x : Backup} {others : List Backup}
    (h : Stage P (x :: others)) (hothers : others ≠ []) : Uninformed P x := by
  cases h with
  | one => exact absurd rfl hothers
  | more _ hx => exact hx

namespace Cluster

variable {c c' : Cluster} {B : Host}

/-- The invariant of the first backup. -/
structure Headed (c : Cluster) : Prop where
  /-- The primary has no identity. -/
  id : c.primary.id = 0
  /-- How far the group has grown. -/
  stage : Stage c.primary c.backups

/-- A join keeps the invariant. -/
theorem Headed.joins (hc : c.Headed) (hnum : c.Numbered) (hj : c.Joins B c') : c'.Headed := by
  obtain ⟨hP, unread, hbackups, hunread⟩ := hj.spec hnum.primary
  have hfresh := hj.fresh
  refine ⟨hP ▸ hc.id, ?_⟩
  rw [hP, hbackups]
  generalize hxs : c.backups = xs
  have hstage := hc.stage
  rw [hxs] at hstage hfresh
  cases hstage with
  | alone hempty =>
    have hnone : notices c.primary B.ownAddress = [] := by
      rw [notices, hempty]
      rfl
    have hsnap : snapshot c.primary.group = [] := by
      rw [snapshot, hempty]
      rfl
    refine .one ?_ ?_ ?_ ?_
    · show UInt32.ofNat (c.primary.group.size + 1) = 1
      rw [hempty]
      rfl
    · show (snapshot c.primary.group).foldl _ B.group = _
      rw [hsnap]
      exact hj.group_eq_empty
    · rw [hunread (by rw [hsnap, hempty]; rfl), hnone]
      rfl
    · show (c.primary.group.assign _ _).entries = _
      rw [hempty]
      rfl
  | @one x hid hgroup hread hentries =>
    have hne : x.address ≠ B.ownAddress := hfresh x List.mem_cons_self
    have hvalues : c.primary.group.values = [x.address] := by
      rw [OrderedMap.values, hentries]
      rfl
    have hcount : c.primary.group.values.count x.address ≤ 1 := by simp [hvalues]
    refine .more (by simp) ⟨⟨hid, ?_⟩, ?_, ?_, ?_⟩
    · show ∀ e ∈ x.host.group.entries, _
      rw [hgroup]
      exact List.forall_mem_nil _
    · show Notices _ (x.unread ++ _)
      rw [hread]
      exact notices_of_count_le hc.id _ hcount
    · exact (OrderedMap.count_values_assign_le _ _ hne).trans hcount
    · show ((c.primary.group.assign (.ofNat (c.primary.group.entries.length + 1)) _).get? 2).isSome
      rw [hentries]
      exact Option.isSome_of_eq_some (OrderedMap.get?_assign_self ..)
  | @more x others hothers hx =>
    exact .more (by simp) (hx.joins hc.id (hfresh x List.mem_cons_self))

/-- What the backups do keeps the invariant. -/
theorem Headed.step (hc : c.Headed) (hnum : c.Numbered) (hs : Step c c') : c'.Headed := by
  cases hs with
  | join hj => exact hc.joins hnum hj
  | @handle P x letters unread t front back hx ht hlisten hread =>
    refine ⟨hc.id, ?_⟩
    have hstage : Stage P (front ++ x :: back) := hc.stage
    cases front with
    | nil =>
      cases hstage with
      | one hid hgroup hnil hentries =>
        rw [hnil] at hx
        obtain ⟨rfl, rfl⟩ := List.append_eq_nil_iff.mp hx.symm
        rw [← handleStart_nil ht] at hid hgroup
        exact .one hid hgroup rfl hentries
      | more hothers hu =>
        obtain ⟨hleft, hhost⟩ := (hx ▸ hu.unread).handled hu.host ht hlisten
        exact .more hothers ⟨hhost, hleft, hu.once, hu.second⟩
    | cons y front => exact .more (by simp) (hstage.uninformed (by simp))

/-- **The first backup of every group** that a primary can come to have. -/
theorem Reachable.headed (hc : c.Reachable) : c.Headed := by
  induction hc with
  | initial => exact ⟨rfl, .alone rfl⟩
  | step hc hs ih => exact ih.step hc.numbered hs

/-! ## Agreement

The views of the group compared with each other, and the number of backups that decides it. -/

/-- Every backup knows what the primary does, without itself. -/
def Agrees (c : Cluster) : Prop :=
  ∀ x ∈ c.backups, ∀ k, x.host.group.get? k = if k = x.host.id then none else c.primary.group.get? k

/-- The first backup does not know the second. -/
theorem not_agrees_of_uninformed {x : Backup} (hx : Uninformed c.primary x)
    (hmem : x ∈ c.backups) : ¬ c.Agrees := by
  intro hagrees
  obtain ⟨a, ha⟩ := Option.isSome_iff_exists.mp hx.second
  have htwo := hagrees x hmem 2
  rw [hx.host.id, if_neg (by decide), ha] at htwo
  have hkey := hx.host.keys _ (OrderedMap.get?_eq_some.mp htwo)
  exact absurd hkey (show (2 : UInt32) ≠ 0 by decide)

/-- **The views agree exactly as long as there is at most one backup.** -/
theorem membership_agrees_iff (hc : c.Reachable) (hread : ∀ x ∈ c.backups, x.unread = []) :
    c.Agrees ↔ c.backups.length ≤ 1 := by
  have hstage := hc.headed.stage
  obtain ⟨P, xs⟩ := c
  cases hstage with
  | alone => exact iff_of_true nofun (Nat.zero_le _)
  | @one x hid hgroup _ hentries =>
    refine iff_of_true (fun y hy k ↦ ?_) le_rfl
    obtain rfl := List.mem_singleton.mp hy
    rw [hgroup, hid, OrderedMap.get?_empty, OrderedMap.get?, hentries]
    by_cases hk : k = 1 <;> simp [hk, Ne.symm]
  | @more x others hothers hx =>
    refine iff_of_false (not_agrees_of_uninformed hx List.mem_cons_self) ?_
    have hpos := List.length_pos_of_ne_nil hothers
    rw [List.length_cons]
    omega

/-- The first backup, with nobody else. -/
theorem first_agrees : (founded.grown ⟨2, 5001⟩).Agrees :=
  (membership_agrees_iff (reachable_founded.grown (Nat.two_pow_pos _) nofun) fun x hx ↦ by
    rw [List.mem_singleton.mp hx]
    rfl).mpr le_rfl

/-- A group of two. -/
def pair : Cluster := (founded.grown ⟨2, 5001⟩).grown ⟨3, 5001⟩

theorem reachable_pair : pair.Reachable :=
  (reachable_founded.grown (Nat.two_pow_pos _) nofun).grown (Nat.one_lt_two_pow (by decide))
    fun x hx ↦ by
      rw [List.mem_singleton.mp hx]
      decide

/-- The first backup of the pair, with the second in the group of the primary, before it has read
anything. -/
def elder : Backup :=
  ⟨⟨2, 5001⟩, joined founded.primary (newBackup ⟨2, 5001⟩ {} (blank ['s'])),
    [letter ⟨1, 5001⟩ .rmOperation ⟨.newMember⟩, letter ⟨1, 5001⟩ .member ⟨0, ⟨3, 5001⟩⟩]⟩

/-- The second backup of the pair. -/
def younger : Backup :=
  ⟨⟨3, 5001⟩, joined (founded.grown ⟨2, 5001⟩).primary (newBackup ⟨3, 5001⟩ {} (blank ['s'])), []⟩

theorem pair_eq : pair = ⟨pair.primary, [elder, younger]⟩ := rfl

/-- **Two backups join, and the first reads what it is sent**: it has filed the second under the
identity 0. -/
theorem second_misfiled : ∃ c : Cluster, c.Reachable ∧ (∀ x ∈ c.backups, x.unread = []) ∧
    c.primary.group.entries = [(1, ⟨2, 5001⟩), (2, ⟨3, 5001⟩)] ∧
    c.backups.map (fun x ↦ (x.host.id, x.host.group.entries))
      = [(1, [(0, ⟨3, 5001⟩)]), (2, [(1, ⟨2, 5001⟩)])] ∧ ¬ c.Agrees := by
  have hread := (handleStart_cons (a := ⟨1, 5001⟩)).mpr (handleStart_nil_endsIn
    pair.primary (elder.file ⟨3, 5001⟩))
  have hstep : Step pair ⟨pair.primary, [⟨elder.address, (elder.file ⟨3, 5001⟩).host, []⟩,
      younger]⟩ := by
    rw [pair_eq]
    exact .handle [] [younger] rfl hread rfl rfl
  refine ⟨_, reachable_pair.step hstep, ?_, rfl, rfl, fun hagrees ↦ ?_⟩
  · intro x hx
    rcases List.mem_pair.mp hx with rfl | rfl <;> rfl
  · exact absurd (hagrees _ List.mem_cons_self 2) (by decide)

end Cluster
end Bropdox
