import Bropdox.LoginThreads

/-!
# Logins that are handled in order

If the threads of a server reserve their ports in the order in which the handshakes arrived, and
those of each user their devices, then what the tables hold in the end depends on that order alone.
This is what makes it possible to compare two servers whose threads run at different speeds.

## What is here

* `portsAfter` and `portOf` say which port the `i`-th login has, and `rankOf` which device.
* `InTurn` is the condition on a step: the older threads have reserved a port before this one does,
  and the older ones of the same user a device.
* `InOrder` is the invariant, with the number of threads that have reserved a port.  A step that
  reserves nothing keeps it (`InOrder.move`), and `arrive`, `reservePort` and `reserveDevice` are
  the others.
* `InOrder.loggedIn_iff`: once every thread has answered, the `i`-th login has the `i`-th port, and
  the device that its place among the logins of the same user gives it.
-/

set_option autoImplicit false

namespace Bropdox

open FileSystem Slots

/-! ## The order of the logins

Ports, devices and users by the order of arrival. -/

/-- The ports after `n` reservations. -/
def portsAfter (m : PortManager) : Nat → PortManager
  | 0 => m
  | n + 1 => (portsAfter m n).reservePort.2

/-- The port of the `i`-th login. -/
def portOf (p : UInt32) (i : Nat) : UInt32 :=
  (portsAfter (Server.start p).ports i).reservePort.1

/-- The place of the `i`-th login among those of a user. -/
def rankOf (users : List Name) (u : Name) (i : Nat) : Nat := (users.take i).count u

/-- The port that has been reserved. -/
def Phase.port? : Phase → Option UInt32
  | created => none
  | ported port | reserved port _ | assigned port _ | initialized port _ | answered port _ =>
    some port

namespace Threaded

variable {s s' : Threaded} {i j k n : Nat} {t t' : LoginThread} {u : Name} {unset : Bool}
  {ph : Phase} {p : UInt32}

/-- Who has logged in, in the order of arrival. -/
def users (s : Threaded) : List Name := s.threads.map LoginThread.userid

/-- A step that is taken in turn: the older threads have reserved a port before this one does, and
the older ones of the same user a device. -/
def InTurn (s : Threaded) : Move → Prop
  | .arrive _ _ => True
  | .advance i unset => Undisturbed s (.advance i unset) ∧ ∀ t, s.HasThread i t →
    (t.phase = .created → ∀ j < i, ∀ t', s.HasThread j t' → t'.phase ≠ .created) ∧
    ∀ q, t.phase = .ported q → ∀ j < i, ∀ t', s.HasThread j t' → t'.userid = t.userid →
      t'.phase.device?.isSome = true

/-! ## The invariant

The steps of a thread one by one, where each of them is taken in turn. -/

/-- The invariant: `n` threads have reserved a port. -/
structure InOrder (p : UInt32) (n : Nat) (s : Threaded) : Prop where
  /-- The devices are as they should be. -/
  orderly : s.Orderly
  /-- The ports of the first `n` threads are gone. -/
  ports : s.server.ports = portsAfter (Server.start p).ports n
  /-- There are at least `n` threads. -/
  le : n ≤ s.threads.length
  /-- The first ones have their ports. -/
  created : ∀ i t, s.HasThread i t → (t.phase = .created ↔ n ≤ i)
  /-- Each thread that has a port has its own. -/
  port : ∀ i t q, s.HasThread i t → t.phase.port? = some q → q = portOf p i
  /-- The devices of a user are given out in order. -/
  rank : ∀ i t u k, s.HasThread i t → t.Holds u k → k = rankOf s.users u i
  /-- To the older threads first. -/
  older : ∀ i j t t', s.HasThread i t → s.HasThread j t' → j < i → t'.userid = t.userid →
    t.phase.device?.isSome = true → t'.phase.device?.isSome = true

theorem users_setPhase (hi : s.HasThread i t) {server : Server} :
    users ⟨server, s.setPhase i ph⟩ = s.users := by
  refine List.ext_getElem? fun j ↦ ?_
  rw [users, users, List.getElem?_map, List.getElem?_map, getElem?_setPhase hi]
  split
  · rename_i hj
    rw [hj, show s.threads[i]? = some t from hi]
    rfl
  · rfl

/-- A step that reserves nothing. -/
theorem InOrder.move (h : InOrder p n s) (hi : s.HasThread i t) {server : Server}
    (horderly : Orderly ⟨server, s.setPhase i ph⟩) (hports : server.ports = s.server.ports)
    (hcreated : ph = .created ↔ t.phase = .created) (hport : ph.port? = t.phase.port?)
    (hdevice : ph.device? = t.phase.device?) : InOrder p n ⟨server, s.setPhase i ph⟩ := by
  -- every thread is where it was, as far as this is concerned
  have hback : ∀ j t', HasThread ⟨server, s.setPhase i ph⟩ j t' → ∃ t₀, s.HasThread j t₀ ∧
      t'.userid = t₀.userid ∧ (t'.phase = .created ↔ t₀.phase = .created) ∧
      t'.phase.port? = t₀.phase.port? ∧ t'.phase.device? = t₀.phase.device? := by
    intro j t' hj
    rw [hasThread_setPhase hi] at hj
    split at hj
    · rename_i hji
      subst hj
      exact ⟨t, hji ▸ hi, rfl, hcreated, hport, hdevice⟩
    · exact ⟨t', hj, rfl, Iff.rfl, rfl, rfl⟩
  refine { orderly := horderly, ports := hports.trans h.ports,
           le := (List.length_modify ..).symm ▸ h.le, created := fun j t' hj ↦ ?_,
           port := fun j t' q hj hq ↦ ?_, rank := fun j t' u k hj hk ↦ ?_,
           older := fun j j' t₁ t₂ hj hj' hlt hu hsome ↦ ?_ }
  · obtain ⟨t₀, hj, -, hc, -⟩ := hback j t' hj
    exact hc.trans (h.created j t₀ hj)
  · obtain ⟨t₀, hj, -, -, hp, -⟩ := hback j t' hj
    exact h.port j t₀ q hj (hp ▸ hq)
  · obtain ⟨t₀, hj, hu, -, -, hd⟩ := hback j t' hj
    rw [users_setPhase hi]
    exact h.rank j t₀ u k hj (hk.congr hu.symm hd.symm)
  · obtain ⟨t₁', hj, hu₁, -, -, hd₁⟩ := hback j t₁ hj
    obtain ⟨t₂', hj', hu₂, -, -, hd₂⟩ := hback j' t₂ hj'
    rw [hd₂]
    rw [hd₁] at hsome
    exact h.older j j' t₁' t₂' hj hj' hlt (hu₂ ▸ hu₁ ▸ hu) hsome

theorem rankOf_append {us vs : List Name} (h : i ≤ us.length) :
    rankOf (us ++ vs) u i = rankOf us u i := by
  rw [rankOf, List.take_append_of_le_length h, rankOf]

theorem rankOf_lt {us : List Name} (h : us[j]? = some u) (hlt : j < i) :
    rankOf us u j < rankOf us u i := by
  obtain ⟨m, rfl⟩ := Nat.exists_eq_add_of_lt hlt
  have hj := (List.getElem?_eq_some_iff.mp h).1
  rw [rankOf, rankOf, Nat.add_assoc, List.take_add, List.count_append, List.drop_eq_getElem_cons hj,
    List.take_succ_cons, (List.getElem?_eq_some_iff.mp h).2, List.count_cons_self]
  omega

/-- Each place before the `i`-th login is that of an older one. -/
theorem exists_of_lt_rankOf {us : List Name} (h : k < rankOf us u i) :
    ∃ j < i, us[j]? = some u ∧ rankOf us u j = k := by
  induction i with
  | zero => simp [rankOf] at h
  | succ i ih =>
    by_cases hi : i < us.length
    · by_cases hk : k < rankOf us u i
      · obtain ⟨j, hj, hu⟩ := ih hk
        exact ⟨j, hj.trans (Nat.lt_succ_self i), hu⟩
      · rw [rankOf, List.take_succ_eq_append_getElem hi, List.count_append, ← rankOf,
          List.count_singleton] at h
        split at h
        · rename_i hu
          refine ⟨i, Nat.lt_succ_self i, ?_, ?_⟩
          · rw [List.getElem?_eq_getElem hi, beq_iff_eq.mp hu]
          · omega
        · omega
    · have hall : rankOf us u (i + 1) = rankOf us u i := by
        rw [rankOf, rankOf, List.take_of_length_le (Nat.le_succ_of_le (Nat.le_of_not_lt hi)),
          List.take_of_length_le (Nat.le_of_not_lt hi)]
      obtain ⟨j, hj, hu⟩ := ih (hall ▸ h)
      exact ⟨j, hj.trans (Nat.lt_succ_self i), hu⟩

theorem HasThread.users (h : s.HasThread i t) : s.users[i]? = some t.userid := by
  rw [Threaded.users, List.getElem?_map, show s.threads[i]? = some t from h]
  rfl

theorem exists_hasThread (h : s.users[i]? = some u) : ∃ t, s.HasThread i t ∧ t.userid = u := by
  rw [Threaded.users, List.getElem?_map] at h
  exact Option.map_eq_some_iff.mp h

/-- A thread whose turn it is gets the next device. -/
theorem InOrder.firstFree_eq (h : InOrder p n s) (hi : s.HasThread i t) {q : UInt32}
    (ht : t.phase = .ported q) (hm : InTurn s (.advance i unset))
    (hfree : firstFree ClientData.initialized (s.server.logins.entry t.userid).slots = some k) :
    k = rankOf s.users t.userid i := by
  obtain ⟨⟨c, hc, hunused⟩, hbefore⟩ := firstFree_eq_some_iff.mp hfree
  have hnone : ∀ j t', s.HasThread j t' → ¬ t'.Holds t.userid k := by
    intro j t' hj hk
    obtain ⟨q', ht'⟩ := h.orderly.assigned_of_free hj hk hc hunused
    have hused := hm.1 t q hi ht j t' q' k c hj hk.user ht' hc
    rw [hunused] at hused
    cases hused
  -- whoever of this user holds a device is older
  have holder : ∀ j t' k', s.HasThread j t' → t'.Holds t.userid k' → j < i := by
    intro j t' k' hj hk'
    by_contra hle
    rcases Nat.lt_or_eq_of_le (Nat.le_of_not_lt hle) with hlt | rfl
    · have := h.older j i t' t hj hi hlt hk'.user.symm (by rw [hk'.device]; rfl)
      rw [ht] at this
      cases this
    · obtain rfl := HasThread.unique hi hj
      have := hk'.device
      rw [ht] at this
      cases this
  refine Nat.le_antisymm (Nat.le_of_not_lt fun hlt ↦ ?_) (Nat.le_of_not_lt fun hlt ↦ ?_)
  · -- the slot of this place is in use, so it is held by an older thread of the same place
    have hk : k < maxConcurrentDev := Devices.lt_of_getElem? hc
    have hget := List.getElem?_eq_getElem
      (Nat.lt_trans hlt ((Devices.length_slots (s.server.logins.entry t.userid)).symm ▸ hk))
    obtain ⟨j, t', hj, hk'⟩ := h.orderly.held _ _ _ hget (hbefore _ hlt _ hget)
    have hrank := h.rank j t' _ _ hj hk'
    exact Nat.lt_irrefl _ (hrank ▸ rankOf_lt (hk'.user ▸ hj.users) (holder j t' _ hj hk'))
  · obtain ⟨j, hj, hu, hrank⟩ := exists_of_lt_rankOf hlt
    obtain ⟨t', ht', hu'⟩ := exists_hasThread hu
    have hsome := (hm.2 t hi).2 q ht j hj t' ht' hu'
    obtain ⟨device, hdevice⟩ := Option.isSome_iff_exists.mp hsome
    obtain ⟨k', hk', rfl⟩ := h.orderly.range j t' device ht' hdevice
    have hholds : t'.Holds t.userid k' := ⟨hk', hu', hdevice⟩
    rw [← h.rank j t' _ _ ht' hholds] at hrank
    exact hnone j t' ht' (hrank ▸ hholds)

theorem inOrder_start (p : UInt32) : InOrder p 0 (start p) := by
  have hnone : ∀ i t, ¬ (start p).HasThread i t := fun i t h ↦ by cases h
  refine { orderly := orderly_start p, ports := ?_, le := Nat.zero_le _,
           created := fun i t h ↦ absurd h (hnone i t), port := fun i t _ h ↦ absurd h (hnone i t),
           rank := fun i t _ _ h ↦ absurd h (hnone i t),
           older := fun i _ t _ h ↦ absurd h (hnone i t) }
  rw [start, portsAfter]

/-- A login that arrives is the last one. -/
theorem InOrder.arrive (h : InOrder p n s) (a : SockAddr) :
    InOrder p n { s with threads := s.threads ++ [⟨u, a, .created⟩] } := by
  have hlt : ∀ {j t'}, s.HasThread j t' → j < s.threads.length :=
    fun hj ↦ (List.getElem?_eq_some_iff.mp hj).1
  refine { orderly := h.orderly.arrive a, ports := h.ports,
           le := h.le.trans ((List.length_append ..).symm ▸ Nat.le_add_right ..),
           created := fun j t' hj ↦ ?_, port := fun j t' q hj hq ↦ ?_,
           rank := fun j t' u' k hj hk ↦ ?_, older := fun j j' t₁ t₂ hj hj' hjj hu hsome ↦ ?_ }
  · rcases hj.cases_arrive with hj | ⟨hge, rfl⟩
    · exact h.created j t' hj
    · exact iff_of_true rfl (h.le.trans hge)
  · rcases hj.cases_arrive with hj | ⟨-, rfl⟩
    · exact h.port j t' q hj hq
    · cases hq
  · rcases hj.cases_arrive with hj | ⟨-, rfl⟩
    · have hle : j ≤ s.users.length := by
        rw [users, List.length_map]
        exact (hlt hj).le
      rw [users, List.map_append, ← users, rankOf_append hle]
      exact h.rank j t' u' k hj hk
    · cases hk.device
  · rcases hj.cases_arrive with hj | ⟨-, rfl⟩
    · rcases hj'.cases_arrive with hj' | ⟨hge, -⟩
      · exact h.older j j' t₁ t₂ hj hj' hjj hu hsome
      · exact absurd (hlt hj) (Nat.not_lt.mpr (hge.trans hjj.le))
    · cases hsome

/-- The next port is reserved. -/
theorem InOrder.reservePort (h : InOrder p n s) (hi : s.HasThread i t) (ht : t.phase = .created)
    (hm : ∀ j < i, ∀ t', s.HasThread j t' → t'.phase ≠ .created) {server : Server}
    (hserver : server = { s.server with ports := s.server.ports.reservePort.2 })
    (horderly : Orderly ⟨server, s.setPhase i (.ported s.server.ports.reservePort.1)⟩) :
    InOrder p (n + 1) ⟨server, s.setPhase i (.ported s.server.ports.reservePort.1)⟩ := by
  have hlt : i < s.threads.length := (List.getElem?_eq_some_iff.mp hi).1
  -- it is the first that has no port
  obtain rfl : i = n := by
    refine Nat.le_antisymm (Nat.le_of_not_lt fun hni ↦ ?_) ((h.created i t hi).mp ht)
    obtain ⟨t', ht'⟩ : ∃ t', s.HasThread n t' := ⟨_, List.getElem?_eq_getElem (hni.trans hlt)⟩
    exact hm n hni t' ht' ((h.created n t' ht').mpr le_rfl)
  refine { orderly := horderly, ports := ?_, le := (List.length_modify ..).symm ▸ hlt,
           created := fun j t' hj ↦ ?_, port := fun j t' q hj hq ↦ ?_,
           rank := fun j t' u k hj hk ↦ ?_, older := fun j j' t₁ t₂ hj hj' hjj hu hsome ↦ ?_ }
  · rw [hserver, portsAfter, ← h.ports]
  · rcases hi.cases_setPhase hj with ⟨rfl, rfl⟩ | ⟨hne, hj⟩
    · exact iff_of_false Phase.noConfusion (Nat.not_succ_le_self j)
    · rw [h.created j t' hj]
      omega
  · rcases hi.cases_setPhase hj with ⟨rfl, rfl⟩ | ⟨-, hj⟩
    · cases hq
      rw [portOf, h.ports]
    · exact h.port j t' q hj hq
  · rw [users_setPhase hi]
    rcases hi.cases_setPhase hj with ⟨rfl, rfl⟩ | ⟨-, hj⟩
    · cases hk.device
    · exact h.rank j t' u k hj hk
  · rcases hi.cases_setPhase hj with ⟨rfl, rfl⟩ | ⟨-, hj₀⟩
    · cases hsome
    · rcases hi.cases_setPhase hj' with ⟨rfl, rfl⟩ | ⟨-, hj₁⟩
      · have hd := h.older j j' t₁ t hj₀ hi hjj hu hsome
        rw [ht] at hd
        cases hd
      · exact h.older j j' t₁ t₂ hj₀ hj₁ hjj hu hsome

/-- The next device is reserved. -/
theorem InOrder.reserveDevice (h : InOrder p n s) (hi : s.HasThread i t) {q : UInt32}
    (ht : t.phase = .ported q) (hm : InTurn s (.advance i unset)) {server : Server}
    (hports : server.ports = s.server.ports)
    (hfree : firstFree ClientData.initialized (s.server.logins.entry t.userid).slots = some k)
    (horderly : Orderly ⟨server, s.setPhase i (.reserved q (.ofNat (k + 1)))⟩) :
    InOrder p n ⟨server, s.setPhase i (.reserved q (.ofNat (k + 1)))⟩ := by
  have hk : k < maxConcurrentDev := by
    obtain ⟨⟨c, hc, -⟩, -⟩ := firstFree_eq_some_iff.mp hfree
    exact Devices.lt_of_getElem? hc
  have hmine : LoginThread.Holds { t with phase := .reserved q (.ofNat (k + 1)) } t.userid k :=
    ⟨hk, rfl, rfl⟩
  refine { orderly := horderly, ports := hports.trans h.ports,
           le := (List.length_modify ..).symm ▸ h.le, created := fun j t' hj ↦ ?_,
           port := fun j t' q' hj hq ↦ ?_, rank := fun j t' u k' hj hk' ↦ ?_,
           older := fun j j' t₁ t₂ hj hj' hjj hu hsome ↦ ?_ }
  · rcases hi.cases_setPhase hj with ⟨rfl, rfl⟩ | ⟨-, hj⟩
    · rw [← h.created j t hi, ht]
      exact iff_of_false Phase.noConfusion Phase.noConfusion
    · exact h.created j t' hj
  · rcases hi.cases_setPhase hj with ⟨rfl, rfl⟩ | ⟨-, hj⟩
    · exact h.port j t q' hi (ht ▸ hq)
    · exact h.port j t' q' hj hq
  · rw [users_setPhase hi]
    rcases hi.cases_setPhase hj with ⟨rfl, rfl⟩ | ⟨-, hj⟩
    · obtain ⟨rfl, rfl⟩ := hmine.inj hk'
      exact h.firstFree_eq hi ht hm hfree
    · exact h.rank j t' u k' hj hk'
  · rcases hi.cases_setPhase hj' with ⟨rfl, rfl⟩ | ⟨-, hj₁⟩
    · rfl
    · rcases hi.cases_setPhase hj with ⟨rfl, rfl⟩ | ⟨-, hj₀⟩
      · exact (hm.2 t hi).2 q ht j' hjj t₂ hj₁ hu
      · exact h.older j j' t₁ t₂ hj₀ hj₁ hjj hu hsome

/-- A step that is taken in turn keeps the order. -/
theorem InOrder.step (h : InOrder p n s) {m : Move} (hm : InTurn s m) (hs : s.step m = some s') :
    ∃ n', InOrder p n' s' := by
  cases m with
  | arrive u a =>
    cases hs
    exact ⟨n, h.arrive a⟩
  | advance i unset =>
    have horderly := h.orderly.step hm.1 hs
    obtain ⟨t, ph, server, hi, hadv, rfl⟩ := step_advance_iff.mp hs
    cases ht : t.phase with
    | created =>
      simp only [LoginThread.advance, ht, Option.some.injEq, Prod.mk.injEq] at hadv
      obtain ⟨rfl, rfl⟩ := hadv
      exact ⟨n + 1, h.reservePort hi ht ((hm.2 t hi).1 ht) rfl horderly⟩
    | ported q =>
      obtain ⟨k, hfree, rfl, rfl⟩ := LoginThread.exists_of_advance_ported ht hadv
      exact ⟨n, h.reserveDevice hi ht hm rfl hfree horderly⟩
    | reserved q device =>
      obtain ⟨k, hk, rfl⟩ := h.orderly.range i t device hi (by rw [ht]; rfl)
      have hmine : t.Holds t.userid k := ⟨hk, rfl, by rw [ht]; rfl⟩
      rw [LoginThread.advance_reserved ht hk (h.orderly.present i t t.userid k hi hmine)] at hadv
      cases hadv
      exact ⟨n, h.move hi horderly rfl (by simp [ht]) (by rw [ht]; rfl)
        (by rw [ht]; rfl)⟩
    | assigned q device =>
      obtain ⟨k, hk, rfl⟩ := h.orderly.range i t device hi (by rw [ht]; rfl)
      rw [LoginThread.advance_assigned ht hk] at hadv
      cases hadv
      exact ⟨n, h.move hi horderly rfl (by simp [ht]) (by rw [ht]; rfl)
        (by rw [ht]; rfl)⟩
    | initialized q device =>
      simp only [LoginThread.advance, ht, Option.some.injEq, Prod.mk.injEq] at hadv
      obtain ⟨rfl, rfl⟩ := hadv
      exact ⟨n, h.move hi horderly rfl (by simp [ht]) (by rw [ht]; rfl)
        (by rw [ht]; rfl)⟩
    | answered q device =>
      simp only [LoginThread.advance, ht] at hadv
      cases hadv

/-! ## The tables in the end

When all threads have answered, the slots hold what the logins have written. -/

/-- Every thread has answered. -/
def Answered (s : Threaded) : Prop :=
  ∀ i t, s.HasThread i t → ∃ port device, t.phase = .answered port device

/-- A thread that has answered has left its data in the slot of its device. -/
theorem InOrder.slot_of_answered (h : InOrder p n s) (hi : s.HasThread i t) (hk : t.Holds u k)
    {q : UInt32} {device : UInt16} (ht : t.phase = .answered q device) {c : ClientData}
    (hc : s.server.logins.slot? u k = some c) :
    c.initialized = true ∧ c.port = portOf p i ∧ k = rankOf s.users u i := by
  have hfits := h.orderly.fits i t u k c hi hk hc
  rw [LoginThread.Fits, ht] at hfits
  subst hfits
  exact ⟨rfl, h.port i t q hi (by rw [ht]; rfl), h.rank i t u k hi hk⟩

/-- **Who is logged in in the end depends on the order of arrival alone.** -/
theorem InOrder.loggedIn_iff (h : InOrder p n s) (hall : s.Answered) (u : Name) (device : UInt16)
    (q : UInt32) : (∃ c, s.server.LoggedIn u device c ∧ c.port = q) ↔
      ∃ i, s.users[i]? = some u ∧ device = .ofNat (rankOf s.users u i + 1) ∧
        q = portOf p i := by
  constructor
  · rintro ⟨c, ⟨hc, hused⟩, rfl⟩
    obtain ⟨k, rfl, hslot⟩ := Devices.at?_eq_some_iff.mp hc
    obtain ⟨i, t, hi, hk⟩ := h.orderly.held u k c hslot hused
    obtain ⟨q, device, ht⟩ := hall i t hi
    obtain ⟨-, hport, hrank⟩ := h.slot_of_answered hi hk ht hslot
    exact ⟨i, hk.user ▸ hi.users, by rw [← hrank], hport⟩
  · rintro ⟨i, hu, rfl, rfl⟩
    obtain ⟨t, hi, rfl⟩ := exists_hasThread hu
    obtain ⟨q, device, ht⟩ := hall i t hi
    obtain ⟨k, hk, rfl⟩ := h.orderly.range i t device hi (by rw [ht]; rfl)
    have hholds : t.Holds t.userid k := ⟨hk, rfl, by rw [ht]; rfl⟩
    obtain ⟨c, hc⟩ := (s.server.logins.entry t.userid).exists_at? hk
    have hslot : s.server.logins.slot? t.userid k = some c := (Devices.at?_device hk).symm.trans hc
    obtain ⟨hused, hport, hrank⟩ := h.slot_of_answered hi hholds ht hslot
    exact ⟨c, ⟨hrank ▸ hc, hused⟩, hport⟩

end Threaded
end Bropdox
