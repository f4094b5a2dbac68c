import Bropdox.Handshakes
import Bropdox.Runs

/-!
# Logins that are handled at the same time

`Server::listen` detaches a thread for every handshake, and `treat_client_request` runs in it.  The
steps of a login that are atomic are those under a mutex, and the setting of `initialized` at the
end; between them the threads of other logins may run.  This file asks which of these interleavings
give one device to two logins of a user.

## What is here

* `LoginThread` is the thread of a login, `Phase` how far it is, and `LoginThread.advance` its next
  atomic step on the server.  `advance_alone`: a thread that runs alone does what
  `treat_client_request` does, so the steps are those of the source.
* `Threaded` is a server with its threads and `Threaded.Move` what may happen: a login arrives, or
  some thread takes its next step.
* `Safe` is the property: no two logins of a user have the same device, and what a login has written
  into its slot is still there.
* `Undisturbed` is the condition on a move.  The reservation of a device is the flag `initialized`,
  which the assignment under `m_map` overwrites with what happens to be in memory; a thread may look
  for a device only while no login of the same user that has overwritten it with `false` is still to
  set it again.
* `Orderly` is the invariant.  Most of it is about who has been given which device (`Owns`), which
  only one kind of step changes: `Orderly.move` is the frame lemma for the others, and
  `Orderly.look`, `Orderly.assign`, `Orderly.initialize` and `Orderly.arrive` are the steps one by
  one.
* `devices_distinct_iff`: a run keeps the devices apart if and only if all its moves are
  undisturbed, for every list of moves.
* `same_device_twice` is the shortest interleaving that gives device 1 to two logins.
-/

set_option autoImplicit false

namespace Bropdox

open FileSystem Slots

/-! ## The threads

The phases follow the statements of `LoginManager::login` and `Server::treat_client_request` up to
the answer. -/

/-- How far the thread of a login is. -/
inductive Phase
  /-- The thread has been created. -/
  | created
  /-- The thread has reserved a port. -/
  | ported (port : UInt32)
  /-- The thread has reserved a device. -/
  | reserved (port : UInt32) (device : UInt16)
  /-- The thread has assigned the new `client_data_t`. -/
  | assigned (port : UInt32) (device : UInt16)
  /-- The thread has set `initialized`. -/
  | initialized (port : UInt32) (device : UInt16)
  /-- The thread has answered. -/
  | answered (port : UInt32) (device : UInt16)
deriving DecidableEq

/-- The thread of a login. -/
structure LoginThread where
  /-- The user. -/
  userid : Name
  /-- Who asked. -/
  clientAddr : SockAddr
  /-- How far it is. -/
  phase : Phase := .created
deriving DecidableEq

/-- The device that has been reserved. -/
def Phase.device? : Phase → Option UInt16
  | created | ported _ => none
  | reserved _ device | assigned _ device | initialized _ device | answered _ device => some device

namespace LoginThread

/-- The new `client_data_t`, with what is found where it leaves `initialized` unset. -/
def data (t : LoginThread) (port : UInt32) (device : UInt16) (unset : Bool) : ClientData :=
  ⟨⟨t.clientAddr, port, device, t.userid⟩, port, unset⟩

/-- The next atomic step of a thread, if it does not throw. -/
def advance (t : LoginThread) (unset : Bool) (s : Server) : Option (Phase × Server) :=
  match t.phase with
  | .created =>
    let r := s.ports.reservePort
    some (.ported r.1, { s with ports := r.2 })
  | .ported port =>
    match s.logins.reserveDevice t.userid with
    | (.ok device, m) => some (.reserved port device, { s with logins := m })
    | (.error _, _) => none
  | .reserved port device =>
    match s.logins.assign t.userid device (t.data port device unset) with
    | (.ok _, m) => some (.assigned port device, { s with logins := m })
    | (.error _, _) => none
  | .assigned port device =>
    match s.logins.setInitialized t.userid device with
    | (.ok _, m) => some (.initialized port device, { s with logins := m })
    | (.error _, _) => none
  | .initialized port device =>
    some (.answered port device, s.answer t.clientAddr ⟨true, port, device⟩)
  | .answered _ _ => none

end LoginThread

/-- `initialized = true` -/
def ClientData.flag (c : ClientData) : ClientData := { c with initialized := true }

namespace LoginManager

variable {m : LoginManager} {u u' : Name} {k k' : Nat} {f : ClientData → ClientData}

/-- What is in slot `k` of a user. -/
def slot? (m : LoginManager) (u : Name) (k : Nat) : Option ClientData := (m.entry u).slots[k]?

/-- Something is written through a slot. -/
def write (m : LoginManager) (u : Name) (k : Nat) (f : ClientData → ClientData) : LoginManager :=
  m.setEntry u ((m.entry u).modify (.ofNat (k + 1)) f)

theorem slot?_write (hk : k < maxConcurrentDev) :
    (m.write u k f).slot? u' k' =
      if u' = u ∧ k' = k then (m.slot? u k).map f else m.slot? u' k' := by
  rw [slot?, write]
  by_cases hu : u' = u
  · rw [hu, entry_setEntry, Devices.slots_modify hk]
    by_cases hk' : k' = k
    · rw [hk', List.getElem?_modify_eq, if_pos ⟨rfl, rfl⟩]
      rfl
    · rw [List.getElem?_modify_ne _ _ (Ne.symm hk'), if_neg fun h ↦ hk' h.2, slot?]
  · rw [entry_setEntry_of_ne hu, if_neg fun h ↦ hu h.1, slot?]

theorem users_write_isSome (h : (m.users u').isSome = true) :
    ((m.write u k f).users u').isSome = true := by
  rw [write, setEntry]
  by_cases hu : u' = u
  · simp [hu]
  · simpa [Function.update_of_ne hu] using h

theorem write_write {g : ClientData → ClientData} :
    (m.write u k f).write u k g = m.write u k (g ∘ f) := by
  rw [write, write, entry_setEntry, setEntry_setEntry, Devices.modify_modify, write]

theorem lt_of_slot? {c : ClientData} (h : m.slot? u k = some c) : k < maxConcurrentDev :=
  Devices.lt_of_getElem? h

end LoginManager

namespace LoginThread

variable {t : LoginThread} {unset : Bool} {s s' : Server} {ph : Phase} {q : UInt32} {k : Nat}

/-- A thread that has a port reserves a device: the first one that looks free. -/
theorem advance_ported (ht : t.phase = .ported q)
    (hk : firstFree ClientData.initialized (s.logins.entry t.userid).slots = some k) :
    t.advance unset s = some (.reserved q (.ofNat (k + 1)),
      { s with logins := s.logins.write t.userid k .flag }) := by
  simp only [advance, ht, LoginManager.reserveDevice_free hk]
  rfl

theorem exists_of_advance_ported (ht : t.phase = .ported q)
    (h : t.advance unset s = some (ph, s')) :
    ∃ k, firstFree ClientData.initialized (s.logins.entry t.userid).slots = some k ∧
      ph = .reserved q (.ofNat (k + 1)) ∧
      s' = { s with logins := s.logins.write t.userid k .flag } := by
  cases hk : firstFree ClientData.initialized (s.logins.entry t.userid).slots with
  | none =>
    simp only [advance, ht, LoginManager.reserveDevice_full hk] at h
    cases h
  | some k =>
    rw [advance_ported ht hk] at h
    cases h
    exact ⟨k, rfl, rfl, rfl⟩

/-- A thread that has reserved a device overwrites the slot of the device. -/
theorem advance_reserved (ht : t.phase = .reserved q (.ofNat (k + 1))) (hk : k < maxConcurrentDev)
    (hu : (s.logins.users t.userid).isSome = true) :
    t.advance unset s = some (.assigned q (.ofNat (k + 1)), { s with
      logins := s.logins.write t.userid k fun _ ↦ t.data q (.ofNat (k + 1)) unset }) := by
  obtain ⟨d, hd⟩ := Option.isSome_iff_exists.mp hu
  obtain ⟨c, hc⟩ := d.exists_at? hk
  simp only [advance, ht, LoginManager.assign_of_at? hd hc]
  rw [LoginManager.write, LoginManager.entry, hd, Option.getD_some]

/-- A thread that has overwritten its slot sets `initialized`. -/
theorem advance_assigned (ht : t.phase = .assigned q (.ofNat (k + 1)))
    (hk : k < maxConcurrentDev) :
    t.advance unset s = some (.initialized q (.ofNat (k + 1)),
      { s with logins := s.logins.write t.userid k .flag }) := by
  obtain ⟨c, hc⟩ := (s.logins.entry t.userid).exists_at? hk
  simp only [advance, ht, LoginManager.setInitialized_of_at? rfl hc]
  rfl

/-- **A thread that runs alone does what `treat_client_request` does.** -/
theorem advance_alone {v : Server.Visit} {b₀ b₁ b₂ b₃ b₄ : Bool}
    (hfree : firstFree ClientData.initialized (s.logins.entry v.hand.userid).slots = some k) :
    Runs.after (fun (x : Phase × Server) b ↦
        (⟨v.hand.userid, v.clientAddr, x.1⟩ : LoginThread).advance b x.2)
      [b₀, b₁, b₂, b₃, b₄] (.created, s) =
        some (.answered s.ports.reservePort.1 (.ofNat (k + 1)), s.welcome v k) := by
  obtain ⟨⟨c, hc, -⟩, -⟩ := firstFree_eq_some_iff.mp hfree
  have hk := Devices.lt_of_getElem? hc
  have hthere : ((s.logins.write v.hand.userid k .flag).users v.hand.userid).isSome = true := by
    rw [LoginManager.write, LoginManager.users_setEntry]
    rfl
  -- the five steps
  rw [Runs.after, advance, Option.bind_some, Runs.after, advance_ported rfl hfree,
    Option.bind_some, Runs.after, advance_reserved rfl hk hthere, Option.bind_some, Runs.after,
    advance_assigned rfl hk, Option.bind_some, Runs.after, advance, Option.bind_some, Runs.after]
  simp only [LoginManager.write_write]
  rfl

end LoginThread

/-- A server with the threads of its logins, in the order in which they were created. -/
structure Threaded where
  /-- The server. -/
  server : Server
  /-- The threads. -/
  threads : List LoginThread := []

/-- What may happen to a server with its threads. -/
inductive Move
  /-- A login arrives, and a thread is created. -/
  | arrive (userid : Name) (clientAddr : SockAddr)
  /-- A thread makes its next step. -/
  | advance (i : Nat) (unset : Bool)

namespace Threaded

/-- Thread `i` is now in this phase. -/
def setPhase (s : Threaded) (i : Nat) (phase : Phase) : List LoginThread :=
  s.threads.modify i fun t ↦ { t with phase }

/-- The state after a move; there is none after an exception, which ends the process. -/
def step (s : Threaded) : Move → Option Threaded
  | .arrive userid clientAddr =>
    some { s with threads := s.threads ++ [{ userid, clientAddr }] }
  | .advance i unset => do
    let t ← s.threads[i]?
    let (phase, server) ← t.advance unset s.server
    return { server, threads := s.setPhase i phase }

/-- A server without threads. -/
def start (port : UInt32) : Threaded := { server := .start port }

variable {s s' : Threaded} {i j k : Nat} {t t' : LoginThread} {u : Name} {unset : Bool}
  {ph : Phase}

theorem step_advance_iff : s.step (.advance i unset) = some s' ↔
    ∃ t ph server, s.threads[i]? = some t ∧ t.advance unset s.server = some (ph, server) ∧
      s' = ⟨server, s.setPhase i ph⟩ := by
  simp only [step, Option.bind_eq_bind, Option.bind_eq_some_iff, Prod.exists, Option.pure_def,
    Option.some.injEq, exists_and_left, eq_comm (b := s')]

/-- Thread `i` moves on, the others do not. -/
theorem getElem?_setPhase (hi : s.threads[i]? = some t) :
    (s.setPhase i ph)[j]? = if j = i then some { t with phase := ph } else s.threads[j]? := by
  rw [setPhase]
  by_cases h : j = i
  · rw [if_pos h, h, List.getElem?_modify_eq, hi]
    rfl
  · rw [if_neg h, List.getElem?_modify_ne _ _ (Ne.symm h)]

end Threaded

/-! ## Who holds a device

The invariant and its preservation, step by step. -/

namespace LoginThread

/-- A thread has been given device `k + 1` of a user. -/
structure Holds (t : LoginThread) (u : Name) (k : Nat) : Prop where
  /-- The user can have so many devices. -/
  lt : k < maxConcurrentDev
  /-- Of this user. -/
  user : t.userid = u
  /-- The device that the thread has been given is this one. -/
  device : t.phase.device? = some (.ofNat (k + 1))

theorem Holds.inj {t : LoginThread} {u u' : Name} {k k' : Nat} (h : t.Holds u k)
    (h' : t.Holds u' k') : u = u' ∧ k = k' :=
  ⟨h.user.symm.trans h'.user,
    Devices.device_inj h.lt h'.lt (Option.some.inj (h.device.symm.trans h'.device))⟩

/-- Another thread at the same device. -/
theorem Holds.congr {t t' : LoginThread} {u : Name} {k : Nat} (h : t.Holds u k)
    (hu : t'.userid = t.userid) (hd : t'.phase.device? = t.phase.device?) : t'.Holds u k :=
  ⟨h.lt, hu.trans h.user, hd.trans h.device⟩

/-- What a thread that holds a device has left in its slot. -/
def Fits (t : LoginThread) (c : ClientData) : Prop :=
  match t.phase with
  | .created | .ported _ => True
  | .reserved _ _ => c.initialized = true
  | .assigned port device => ∃ unset, c = t.data port device unset
  | .initialized port device | .answered port device => c = t.data port device true

end LoginThread

/-- What a thread has written into its slot. -/
def Phase.written? : Phase → Option (UInt32 × UInt16)
  | created | ported _ | reserved _ _ => none
  | assigned port device | initialized port device | answered port device => some (port, device)

namespace Threaded

variable {s s' : Threaded} {i j k : Nat} {t t' : LoginThread} {u : Name} {unset : Bool}
  {ph : Phase}

/-- Thread number `i`. -/
def HasThread (s : Threaded) (i : Nat) (t : LoginThread) : Prop := s.threads[i]? = some t

/-- No two logins of a user have the same device, and what a login has written is still there. -/
structure Safe (s : Threaded) : Prop where
  /-- The devices are different. -/
  distinct : ∀ i j t t' device, s.HasThread i t → s.HasThread j t' →
    t.userid = t'.userid → t.phase.device? = some device → t'.phase.device? = some device → i = j
  /-- The handler and the port are in the slot. -/
  kept : ∀ i t port device, s.HasThread i t → t.phase.written? = some (port, device) →
    ∃ c, (s.server.logins.entry t.userid).at? device = some c ∧
      c.handler = ⟨t.clientAddr, port, device, t.userid⟩ ∧ c.port = port

/-- A thread may look for a device: no login of the same user is between its assignment and the
setting of `initialized` while the flag reads false. -/
def Undisturbed (s : Threaded) : Move → Prop
  | .arrive _ _ => True
  | .advance i _ => ∀ t q, s.HasThread i t → t.phase = .ported q →
    ∀ j t' q' k c, s.HasThread j t' → t'.userid = t.userid →
      t'.phase = .assigned q' (.ofNat (k + 1)) → s.server.logins.slot? t.userid k = some c →
      c.initialized = true

/-- The invariant. -/
structure Orderly (s : Threaded) : Prop where
  /-- A device is held by one thread at most. -/
  distinct : ∀ i j t t' u k, s.HasThread i t → s.HasThread j t' → t.Holds u k →
    t'.Holds u k → i = j
  /-- Devices have the numbers there are. -/
  range : ∀ i t device, s.HasThread i t → t.phase.device? = some device →
    ∃ k < maxConcurrentDev, device = .ofNat (k + 1)
  /-- The devices of a user are given out in order. -/
  below : ∀ i t u k, s.HasThread i t → t.Holds u k → ∀ k' < k,
    ∃ j t', s.HasThread j t' ∧ t'.Holds u k'
  /-- The slot of a device is as its holder left it. -/
  fits : ∀ i t u k c, s.HasThread i t → t.Holds u k →
    s.server.logins.slot? u k = some c → t.Fits c
  /-- Whatever looks taken is held. -/
  held : ∀ u k c, s.server.logins.slot? u k = some c → c.initialized = true →
    ∃ i t, s.HasThread i t ∧ t.Holds u k
  /-- A user with a device has an entry. -/
  present : ∀ i t u k, s.HasThread i t → t.Holds u k →
    (s.server.logins.users u).isSome = true

/-- The invariant says what it should. -/
theorem Orderly.safe (h : Orderly s) : Safe s where
  distinct i j t t' device hi hj hu hd hd' := by
    obtain ⟨k, hk, rfl⟩ := h.range i t device hi hd
    exact h.distinct i j t t' t.userid k hi hj ⟨hk, rfl, hd⟩ ⟨hk, hu.symm, hd'⟩
  kept i t port device hi hw := by
    have hd : t.phase.device? = some device := by
      cases hph : t.phase <;> rw [hph] at hw <;> cases hw <;> rfl
    obtain ⟨k, hk, rfl⟩ := h.range i t device hi hd
    obtain ⟨c, hc⟩ : ∃ c, s.server.logins.slot? t.userid k = some c :=
      ⟨_, List.getElem?_eq_getElem ((Devices.length_slots _).symm ▸ hk)⟩
    have hfits := h.fits i t t.userid k c hi ⟨hk, rfl, hd⟩ hc
    refine ⟨c, (Devices.at?_device hk).trans hc, ?_⟩
    cases hph : t.phase with
    | created => rw [hph] at hw; cases hw
    | ported q => rw [hph] at hw; cases hw
    | reserved q d => rw [hph] at hw; cases hw
    | assigned q d =>
      rw [hph] at hw
      cases hw
      rw [LoginThread.Fits, hph] at hfits
      obtain ⟨unset, rfl⟩ := hfits
      exact ⟨rfl, rfl⟩
    | initialized q d =>
      rw [hph] at hw
      cases hw
      rw [LoginThread.Fits, hph] at hfits
      obtain rfl := hfits
      exact ⟨rfl, rfl⟩
    | answered q d =>
      rw [hph] at hw
      cases hw
      rw [LoginThread.Fits, hph] at hfits
      obtain rfl := hfits
      exact ⟨rfl, rfl⟩

theorem HasThread.unique (h : s.HasThread i t) (h' : s.HasThread i t') : t' = t :=
  Option.some.inj (h'.symm.trans h)

/-- The threads after a step of one of them. -/
theorem hasThread_setPhase (hi : s.HasThread i t) {server : Server} :
    HasThread ⟨server, s.setPhase i ph⟩ j t' ↔
      if j = i then t' = { t with phase := ph } else s.HasThread j t' := by
  rw [HasThread, getElem?_setPhase hi]
  split
  · rw [Option.some.injEq, eq_comm]
  · rfl

/-- A thread after a step is the one that made the step, or another one that is as before. -/
theorem HasThread.cases_setPhase (hi : s.HasThread i t) {server : Server}
    (hj : HasThread ⟨server, s.setPhase i ph⟩ j t') :
    (j = i ∧ t' = { t with phase := ph }) ∨ (j ≠ i ∧ s.HasThread j t') := by
  rw [hasThread_setPhase hi] at hj
  split at hj
  · exact .inl ⟨‹_›, hj⟩
  · exact .inr ⟨‹_›, hj⟩

/-- The threads after the arrival of one. -/
theorem HasThread.cases_arrive {new : LoginThread}
    (hj : HasThread { s with threads := s.threads ++ [new] } j t') :
    s.HasThread j t' ∨ (s.threads.length ≤ j ∧ t' = new) := by
  rcases lt_or_ge j s.threads.length with hlt | hge
  · rw [HasThread, List.getElem?_append_left hlt] at hj
    exact .inl hj
  · rw [HasThread, List.getElem?_append_right hge] at hj
    exact .inr ⟨hge, List.mem_singleton.mp (List.mem_of_getElem? hj)⟩

/-! ### Owners

Who has been given a device is all that most of the invariant is about, and a step changes it in one
phase only. -/

/-- Thread `j` has been given device `k + 1` of a user. -/
def Owns (s : Threaded) (j : Nat) (u : Name) (k : Nat) : Prop := ∃ t, s.HasThread j t ∧ t.Holds u k

namespace Orderly

/-- A device has one owner at most. -/
theorem owner_unique (h : Orderly s) (hi : s.Owns i u k) (hj : s.Owns j u k) : i = j := by
  obtain ⟨t, hi, hk⟩ := hi
  obtain ⟨t', hj, hk'⟩ := hj
  exact h.distinct i j t t' u k hi hj hk hk'

/-- If a device has an owner, so have those before it. -/
theorem exists_owner_below (h : Orderly s) (hi : s.Owns i u k) {k' : Nat} (hlt : k' < k) :
    ∃ j, s.Owns j u k' := by
  obtain ⟨t, hi, hk⟩ := hi
  exact h.below i t u k hi hk k' hlt

/-- A device that looks taken has an owner. -/
theorem exists_owner (h : Orderly s) {c : ClientData}
    (hc : s.server.logins.slot? u k = some c) (hused : c.initialized = true) :
    ∃ i, s.Owns i u k :=
  h.held u k c hc hused

/-- The user of a device that has an owner has an entry. -/
theorem isSome_of_owner (h : Orderly s) (hi : s.Owns i u k) :
    (s.server.logins.users u).isSome = true := by
  obtain ⟨t, hi, hk⟩ := hi
  exact h.present i t u k hi hk

/-- The invariant, from what it says of the owners. -/
theorem of_owns (hunique : ∀ i j u k, s.Owns i u k → s.Owns j u k → i = j)
    (hrange : ∀ i t device, s.HasThread i t → t.phase.device? = some device →
      ∃ k < maxConcurrentDev, device = .ofNat (k + 1))
    (hbelow : ∀ i u k k', s.Owns i u k → k' < k → ∃ j, s.Owns j u k')
    (hfits : ∀ i t u k c, s.HasThread i t → t.Holds u k →
      s.server.logins.slot? u k = some c → t.Fits c)
    (howner : ∀ u k c, s.server.logins.slot? u k = some c → c.initialized = true →
      ∃ i, s.Owns i u k)
    (hpresent : ∀ i u k, s.Owns i u k → (s.server.logins.users u).isSome = true) : Orderly s where
  distinct i j t t' u k hi hj hk hk' := hunique i j u k ⟨t, hi, hk⟩ ⟨t', hj, hk'⟩
  range := hrange
  below i t u k hi hk k' hlt := hbelow i u k k' ⟨t, hi, hk⟩ hlt
  fits := hfits
  held := howner
  present i t u k hi hk := hpresent i u k ⟨t, hi, hk⟩

end Orderly

/-- A step that gives out no device leaves the owners as they are. -/
theorem owns_setPhase (hi : s.HasThread i t) {server : Server}
    (hd : ph.device? = t.phase.device?) :
    Owns ⟨server, s.setPhase i ph⟩ j u k ↔ s.Owns j u k := by
  have hown : Owns ⟨server, s.setPhase i ph⟩ i u k ↔ s.Owns i u k := by
    constructor
    · rintro ⟨t', ht', hk⟩
      rw [hasThread_setPhase hi, if_pos rfl] at ht'
      rw [ht'] at hk
      exact ⟨t, hi, hk.congr rfl hd.symm⟩
    · rintro ⟨t', ht', hk⟩
      obtain rfl := HasThread.unique hi ht'
      refine ⟨{ t' with phase := ph }, ?_, hk.congr rfl hd⟩
      rw [hasThread_setPhase hi, if_pos rfl]
  by_cases hji : j = i
  · rw [hji, hown]
  · simp only [Owns, hasThread_setPhase hi, if_neg hji]

/-- A step that gives out no device, and writes to the slot of its own at most. -/
theorem Orderly.move (h : Orderly s) (hi : s.HasThread i t) {server : Server}
    (hd : ph.device? = t.phase.device?)
    (hslot : ∀ u k c, server.logins.slot? u k = some c →
      s.server.logins.slot? u k = some c ∨ t.Holds u k)
    (hfits : ∀ k c, t.Holds t.userid k → server.logins.slot? t.userid k = some c →
      { t with phase := ph }.Fits c)
    (husers : ∀ u, (s.server.logins.users u).isSome = true →
      (server.logins.users u).isSome = true) : Orderly ⟨server, s.setPhase i ph⟩ := by
  have howns (j : Nat) (u : Name) (k : Nat) :
      Owns ⟨server, s.setPhase i ph⟩ j u k ↔ s.Owns j u k := owns_setPhase hi hd
  refine .of_owns (fun j j' u k hj hj' ↦ ?_) (fun j t' device hj hdevice ↦ ?_)
    (fun j u k k' hj hlt ↦ ?_) (fun j t' u k c hj hk hc ↦ ?_) (fun u k c hc hused ↦ ?_)
    fun j u k hj ↦ ?_
  · exact h.owner_unique ((howns ..).mp hj) ((howns ..).mp hj')
  · rcases hi.cases_setPhase hj with ⟨-, rfl⟩ | ⟨-, hj⟩
    · exact h.range i t device hi (hd ▸ hdevice)
    · exact h.range j t' device hj hdevice
  · obtain ⟨j', hj'⟩ := h.exists_owner_below ((howns ..).mp hj) hlt
    exact ⟨j', (howns ..).mpr hj'⟩
  · rcases hi.cases_setPhase hj with ⟨-, rfl⟩ | ⟨hji, hj⟩
    · obtain rfl := hk.user
      exact hfits k c (hk.congr rfl hd.symm) hc
    · rcases hslot u k c hc with hold | hown
      · exact h.fits j t' u k c hj hk hold
      · exact absurd (h.distinct j i t' t u k hj hi hk hown) hji
  · rcases hslot u k c hc with hold | hown
    · obtain ⟨j, hj⟩ := h.exists_owner hold hused
      exact ⟨j, (howns ..).mpr hj⟩
    · exact ⟨i, (howns ..).mpr ⟨t, hi, hown⟩⟩
  · exact husers u (h.isSome_of_owner ((howns ..).mp hj))

/-- A thread holds a device whose slot looks free only between its assignment and the setting of
`initialized`. -/
theorem Orderly.assigned_of_free (h : Orderly s) (hj : s.HasThread j t') (hk : t'.Holds u k)
    {c : ClientData} (hc : s.server.logins.slot? u k = some c) (hfree : c.initialized = false) :
    ∃ q, t'.phase = .assigned q (.ofNat (k + 1)) := by
  have hfits := h.fits j t' u k c hj hk hc
  have hd := hk.device
  rw [LoginThread.Fits] at hfits
  cases hph : t'.phase with
  | created => rw [hph] at hd; cases hd
  | ported q => rw [hph] at hd; cases hd
  | reserved q d =>
    rw [hph] at hfits
    rw [hfree] at hfits
    cases hfits
  | assigned q d =>
    rw [hph] at hd
    cases hd
    exact ⟨q, rfl⟩
  | initialized q d =>
    rw [hph] at hfits
    rw [hfits] at hfree
    cases hfree
  | answered q d =>
    rw [hph] at hfits
    rw [hfits] at hfree
    cases hfree

/-- A device is given out to a thread that has none: it owns it then, and the others own what they
owned before. -/
theorem owns_reserve (hi : s.HasThread i t) (ht : t.phase.device? = none) {server : Server}
    (hmine : LoginThread.Holds { t with phase := ph } t.userid k) {k' : Nat} :
    Owns ⟨server, s.setPhase i ph⟩ j u k' ↔
      (j = i ∧ u = t.userid ∧ k' = k) ∨ s.Owns j u k' := by
  constructor
  · rintro ⟨t', hj, hk'⟩
    rcases hi.cases_setPhase hj with ⟨rfl, rfl⟩ | ⟨-, hj⟩
    · obtain ⟨rfl, rfl⟩ := hmine.inj hk'
      exact .inl ⟨rfl, rfl, rfl⟩
    · exact .inr ⟨t', hj, hk'⟩
  · rintro (⟨rfl, rfl, rfl⟩ | ⟨t', hj, hk'⟩)
    · refine ⟨_, ?_, hmine⟩
      rw [hasThread_setPhase hi, if_pos rfl]
    · refine ⟨t', ?_, hk'⟩
      rw [hasThread_setPhase hi, if_neg]
      · exact hj
      · rintro rfl
        obtain rfl := HasThread.unique hi hj
        cases ht.symm.trans hk'.device

/-- The slots after a device has been given out: its own slot looks taken, the others are as they
were. -/
theorem slot?_reserve {m : LoginManager} {k' : Nat} {c : ClientData} (hk : k < maxConcurrentDev)
    (hc : (m.write t.userid k .flag).slot? u k' = some c) :
    (u = t.userid ∧ k' = k ∧ c.initialized = true) ∨
      (¬ (u = t.userid ∧ k' = k) ∧ m.slot? u k' = some c) := by
  rw [LoginManager.slot?_write hk] at hc
  split at hc
  · next hu =>
    obtain ⟨c₀, -, rfl⟩ := Option.map_eq_some_iff.mp hc
    exact .inl ⟨hu.1, hu.2, rfl⟩
  · next hu => exact .inr ⟨hu, hc⟩

/-- The device that is given out is next in line: the slots before the first free one are in use, so
their devices have owners. -/
theorem Orderly.exists_owner_of_lt (h : Orderly s)
    (hfree : firstFree ClientData.initialized (s.server.logins.entry u).slots = some k)
    {k' : Nat} (hlt : k' < k) : ∃ j, s.Owns j u k' := by
  obtain ⟨⟨c, hc, -⟩, hbefore⟩ := firstFree_eq_some_iff.mp hfree
  have hk : k < maxConcurrentDev := Devices.lt_of_getElem? hc
  have hget := List.getElem?_eq_getElem
    (Nat.lt_trans hlt ((Devices.length_slots (s.server.logins.entry u)).symm ▸ hk))
  exact h.exists_owner hget (hbefore k' hlt _ hget)

/-- What is in the slots of the threads that hold a device, after one has been given out that nobody
held. -/
theorem Orderly.fits_reserve (h : Orderly s) (hi : s.HasThread i t) (hk : k < maxConcurrentDev)
    (hnone : ∀ j, ¬ s.Owns j t.userid k) {q : UInt32} {server : Server} {t' : LoginThread}
    {k' : Nat} {c : ClientData}
    (hj : HasThread ⟨server, s.setPhase i (.reserved q (.ofNat (k + 1)))⟩ j t')
    (hk' : t'.Holds u k') (hc : (s.server.logins.write t.userid k .flag).slot? u k' = some c) :
    t'.Fits c := by
  rcases hi.cases_setPhase hj with ⟨-, rfl⟩ | ⟨-, hold⟩
  · obtain ⟨rfl, rfl⟩ := hk'.inj ⟨hk, rfl, rfl⟩
    rcases slot?_reserve hk hc with ⟨-, -, hused⟩ | ⟨hne, -⟩
    · exact hused
    · exact absurd ⟨rfl, rfl⟩ hne
  · rcases slot?_reserve hk hc with ⟨rfl, rfl, -⟩ | ⟨-, hsame⟩
    · exact absurd ⟨t', hold, hk'⟩ (hnone j)
    · exact h.fits j t' u k' c hold hk' hsame

/-- The step that gives out a device nobody holds. -/
theorem Orderly.reserve (h : Orderly s) (hi : s.HasThread i t) {q : UInt32}
    (ht : t.phase = .ported q)
    (hfree : firstFree ClientData.initialized (s.server.logins.entry t.userid).slots = some k)
    (hnone : ∀ j, ¬ s.Owns j t.userid k) :
    Orderly ⟨{ s.server with logins := s.server.logins.write t.userid k .flag },
      s.setPhase i (.reserved q (.ofNat (k + 1)))⟩ := by
  obtain ⟨⟨c, hc, -⟩, -⟩ := firstFree_eq_some_iff.mp hfree
  have hk : k < maxConcurrentDev := Devices.lt_of_getElem? hc
  have hnew : t.phase.device? = none := by rw [ht]; rfl
  have hmine : LoginThread.Holds { t with phase := .reserved q (.ofNat (k + 1)) } t.userid k :=
    ⟨hk, rfl, rfl⟩
  have howns (j : Nat) (u : Name) (k' : Nat) :
      Owns ⟨{ s.server with logins := s.server.logins.write t.userid k .flag },
        s.setPhase i (.reserved q (.ofNat (k + 1)))⟩ j u k' ↔
        (j = i ∧ u = t.userid ∧ k' = k) ∨ s.Owns j u k' :=
    owns_reserve hi hnew hmine
  refine .of_owns (fun j j' u k' hj hj' ↦ ?_) (fun j t' device hj hdevice ↦ ?_)
    (fun j u k₁ k' hj hlt ↦ ?_) (fun _ _ _ _ _ hj hk' hc' ↦ h.fits_reserve hi hk hnone hj hk' hc')
    (fun u k' c' hc' hused ↦ ?_) fun j u k' hj ↦ ?_
  · rcases (howns ..).mp hj with ⟨rfl, rfl, rfl⟩ | hold <;>
      rcases (howns ..).mp hj' with ⟨rfl, hu, hk'⟩ | hold'
    · rfl
    · exact absurd hold' (hnone j')
    · exact absurd (hu ▸ hk' ▸ hold) (hnone j)
    · exact h.owner_unique hold hold'
  · rcases hi.cases_setPhase hj with ⟨-, rfl⟩ | ⟨-, hj⟩
    · cases hdevice
      exact ⟨k, hk, rfl⟩
    · exact h.range j t' device hj hdevice
  · suffices hbelow : ∃ j', s.Owns j' u k' from
      hbelow.imp fun j' hj' ↦ (howns ..).mpr (.inr hj')
    rcases (howns ..).mp hj with ⟨rfl, rfl, rfl⟩ | hold
    · exact h.exists_owner_of_lt hfree hlt
    · exact h.exists_owner_below hold hlt
  · rcases slot?_reserve hk hc' with ⟨rfl, rfl, -⟩ | ⟨-, hold⟩
    · exact ⟨i, (howns ..).mpr (.inl ⟨rfl, rfl, rfl⟩)⟩
    · exact (h.exists_owner hold hused).imp fun j hj ↦ (howns ..).mpr (.inr hj)
  · rcases (howns ..).mp hj with ⟨-, rfl, -⟩ | hold
    · rw [LoginManager.write, LoginManager.users_setEntry]
      rfl
    · exact LoginManager.users_write_isSome (h.isSome_of_owner hold)

/-- A login that arrives holds nothing. -/
theorem Orderly.arrive (h : Orderly s) (a : SockAddr) :
    Orderly { s with threads := s.threads ++ [⟨u, a, .created⟩] } := by
  have hheld : ∀ j t' u' k, HasThread { s with threads := s.threads ++ [⟨u, a, .created⟩] } j t' →
      t'.Holds u' k → s.HasThread j t' := by
    intro j t' u' k hj hk
    rcases hj.cases_arrive with hj | ⟨-, rfl⟩
    · exact hj
    · cases hk.device
  have hforth : ∀ j t', s.HasThread j t' →
      HasThread { s with threads := s.threads ++ [⟨u, a, .created⟩] } j t' := by
    intro j t' hj
    rw [HasThread, List.getElem?_append_left (List.getElem?_eq_some_iff.mp hj).1]
    exact hj
  refine { distinct := fun i j t t' u' k hi hj hk hk' ↦ ?_, range := fun i t device hi hdevice ↦ ?_,
           below := fun i t u' k hi hk k' hlt ↦ ?_, fits := fun i t u' k c hi hk hc ↦ ?_,
           held := fun u' k c hc hused ↦ ?_, present := fun i t u' k hi hk ↦ ?_ }
  · exact h.distinct i j t t' u' k (hheld i t u' k hi hk) (hheld j t' u' k hj hk') hk hk'
  · rcases hi.cases_arrive with hi | ⟨-, rfl⟩
    · exact h.range i t device hi hdevice
    · cases hdevice
  · obtain ⟨j, t', hj, hk'⟩ := h.below i t u' k (hheld i t u' k hi hk) hk k' hlt
    exact ⟨j, t', hforth j t' hj, hk'⟩
  · exact h.fits i t u' k c (hheld i t u' k hi hk) hk hc
  · obtain ⟨i, t, hi, hk⟩ := h.held u' k c hc hused
    exact ⟨i, t, hforth i t hi, hk⟩
  · exact h.present i t u' k (hheld i t u' k hi hk) hk

section Writing

variable {m : LoginManager} {f : ClientData → ClientData} {c : ClientData} {k' : Nat}

/-- Writing through one's own slot changes no other. -/
theorem slot?_write_or (hmine : t.Holds t.userid k)
    (hc : (m.write t.userid k f).slot? u k' = some c) : m.slot? u k' = some c ∨ t.Holds u k' := by
  rw [LoginManager.slot?_write hmine.lt] at hc
  split at hc
  · rename_i hu
    obtain ⟨rfl, rfl⟩ := hu
    exact .inr hmine
  · exact .inl hc

/-- The slot of a thread holds what the thread has just written. -/
theorem exists_of_slot?_write (hmine : t.Holds t.userid k) (hk' : t.Holds t.userid k')
    (hc : (m.write t.userid k f).slot? t.userid k' = some c) :
    ∃ c₀, m.slot? t.userid k = some c₀ ∧ f c₀ = c := by
  obtain ⟨-, rfl⟩ := hmine.inj hk'
  rw [LoginManager.slot?_write hmine.lt, if_pos ⟨rfl, rfl⟩] at hc
  exact Option.map_eq_some_iff.mp hc

end Writing

section Steps

variable {q : UInt32} {device : UInt16} {server : Server}

/-- The step that looks for a device, if no flag is gone. -/
theorem Orderly.look (h : Orderly s) (hm : Undisturbed s (.advance i unset))
    (hi : s.HasThread i t) (ht : t.phase = .ported q)
    (hadv : t.advance unset s.server = some (ph, server)) : Orderly ⟨server, s.setPhase i ph⟩ := by
  obtain ⟨k, hfree, rfl, rfl⟩ := LoginThread.exists_of_advance_ported ht hadv
  obtain ⟨⟨c, hc, hunused⟩, -⟩ := firstFree_eq_some_iff.mp hfree
  refine h.reserve hi ht hfree ?_
  rintro j ⟨t', hj, hk⟩
  obtain ⟨q', ht'⟩ := h.assigned_of_free hj hk hc hunused
  have hused := hm t q hi ht j t' q' k c hj hk.user ht' hc
  rw [hunused] at hused
  cases hused

/-- The device of a thread is one that it holds. -/
theorem Orderly.exists_holds (h : Orderly s) (hi : s.HasThread i t)
    (hd : t.phase.device? = some device) : ∃ k, device = .ofNat (k + 1) ∧ t.Holds t.userid k := by
  obtain ⟨k, hk, rfl⟩ := h.range i t device hi hd
  exact ⟨k, rfl, hk, rfl, hd⟩

/-- The step that overwrites the slot. -/
theorem Orderly.assign (h : Orderly s) (hi : s.HasThread i t) (ht : t.phase = .reserved q device)
    (hadv : t.advance unset s.server = some (ph, server)) : Orderly ⟨server, s.setPhase i ph⟩ := by
  obtain ⟨k, rfl, hmine⟩ := h.exists_holds hi (by rw [ht]; rfl)
  rw [LoginThread.advance_reserved ht hmine.lt (h.present i t t.userid k hi hmine)] at hadv
  cases hadv
  refine h.move hi (by rw [ht]; rfl) (fun _ _ _ ↦ slot?_write_or hmine) (fun k' c hk' hc ↦ ?_)
    fun _ ↦ LoginManager.users_write_isSome
  obtain ⟨-, -, rfl⟩ := exists_of_slot?_write hmine hk' hc
  exact ⟨unset, rfl⟩

/-- The step that sets the flag. -/
theorem Orderly.initialize (h : Orderly s) (hi : s.HasThread i t)
    (ht : t.phase = .assigned q device) (hadv : t.advance unset s.server = some (ph, server)) :
    Orderly ⟨server, s.setPhase i ph⟩ := by
  obtain ⟨k, rfl, hmine⟩ := h.exists_holds hi (by rw [ht]; rfl)
  rw [LoginThread.advance_assigned ht hmine.lt] at hadv
  cases hadv
  refine h.move hi (by rw [ht]; rfl) (fun _ _ _ ↦ slot?_write_or hmine) (fun k' c hk' hc ↦ ?_)
    fun _ ↦ LoginManager.users_write_isSome
  obtain ⟨c₀, hc₀, rfl⟩ := exists_of_slot?_write hmine hk' hc
  have hfits := h.fits i t t.userid k c₀ hi hmine hc₀
  rw [LoginThread.Fits, ht] at hfits
  obtain ⟨unset', rfl⟩ := hfits
  rfl

end Steps

/-- A step that is not disturbed keeps the invariant. -/
theorem Orderly.step (h : Orderly s) {m : Move} (hm : Undisturbed s m) (hs : s.step m = some s') :
    Orderly s' := by
  cases m with
  | arrive u a =>
    cases hs
    exact h.arrive a
  | advance i unset =>
    obtain ⟨t, ph, server, hi, hadv, rfl⟩ := step_advance_iff.mp hs
    cases ht : t.phase with
    | created =>
      simp only [LoginThread.advance, ht, Option.some.injEq, Prod.mk.injEq] at hadv
      obtain ⟨rfl, rfl⟩ := hadv
      refine h.move hi (by rw [ht]; rfl) (fun _ _ _ hc ↦ .inl hc) ?_ fun _ hu ↦ hu
      exact fun _ _ _ _ ↦ trivial
    | ported q => exact h.look hm hi ht hadv
    | reserved q device => exact h.assign hi ht hadv
    | assigned q device => exact h.initialize hi ht hadv
    | initialized q device =>
      simp only [LoginThread.advance, ht, Option.some.injEq, Prod.mk.injEq] at hadv
      obtain ⟨rfl, rfl⟩ := hadv
      refine h.move hi (by rw [ht]; rfl) (fun _ _ _ hc ↦ .inl hc) (fun k c hk hc ↦ ?_)
        fun _ hu ↦ hu
      have hfits := h.fits i t t.userid k c hi hk hc
      rw [LoginThread.Fits, ht] at hfits
      exact hfits
    | answered q device =>
      simp only [LoginThread.advance, ht] at hadv
      cases hadv

/-- A step that is disturbed gives out a device again. -/
theorem Orderly.not_safe (h : Orderly s) {m : Move} (hm : ¬ Undisturbed s m)
    (hs : s.step m = some s') : ¬ Safe s' := by
  cases m with
  | arrive u a => exact absurd trivial hm
  | advance i unset =>
    simp only [Undisturbed, not_forall] at hm
    obtain ⟨t, q, hi, ht, j, t', q', k, c, hj, hu, ht', hc, hunused⟩ := hm
    obtain ⟨t₀, ph, server, hi₀, hadv, rfl⟩ := step_advance_iff.mp hs
    obtain rfl : t = t₀ := HasThread.unique hi₀ hi
    obtain ⟨k', hfree, rfl, rfl⟩ := LoginThread.exists_of_advance_ported ht hadv
    intro hsafe
    -- the slot that is found is at most the one whose flag is gone, so somebody holds it
    obtain ⟨⟨c', hc', -⟩, hbefore⟩ := firstFree_eq_some_iff.mp hfree
    have hk' : t'.Holds t.userid k := ⟨LoginManager.lt_of_slot? hc, hu, by rw [ht']; rfl⟩
    have hle : k' ≤ k := Nat.le_of_not_lt fun hlt ↦ hunused (hbefore k hlt c hc)
    obtain ⟨j₁, t₁, hj₁, hk₁⟩ : ∃ j₁ t₁, s.HasThread j₁ t₁ ∧ t₁.Holds t.userid k' := by
      rcases Nat.lt_or_eq_of_le hle with hlt | rfl
      · exact h.below j t' t.userid k hj hk' k' hlt
      · exact ⟨j, t', hj, hk'⟩
    have hne : j₁ ≠ i := by
      rintro rfl
      obtain rfl := HasThread.unique hi hj₁
      have hdevice := hk₁.device
      rw [ht] at hdevice
      cases hdevice
    refine hne (hsafe.distinct j₁ i t₁ { t with phase := .reserved q (.ofNat (k' + 1)) }
      (.ofNat (k' + 1)) ?_ ?_ hk₁.user hk₁.device rfl)
    · rwa [hasThread_setPhase hi, if_neg hne]
    · rw [hasThread_setPhase hi, if_pos rfl]

theorem orderly_start (port : UInt32) : Orderly (start port) := by
  have hnone : ∀ i t, ¬ (start port).HasThread i t := fun i t h ↦ by cases h
  constructor
  · exact fun i _ t _ _ _ h ↦ absurd h (hnone i t)
  · exact fun i t _ h ↦ absurd h (hnone i t)
  · exact fun i t _ _ h ↦ absurd h (hnone i t)
  · exact fun i t _ _ _ h ↦ absurd h (hnone i t)
  · intro u k c hc hused
    rw [List.eq_of_mem_replicate (List.mem_of_getElem? hc)] at hused
    cases hused
  · exact fun i t _ _ h ↦ absurd h (hnone i t)

/-- **Logins that are handled at the same time get different devices, and keep them, exactly if
nobody looks for a device while the flag of another one is gone.** -/
theorem devices_distinct_iff (port : UInt32) (moves : List Move) :
    Runs.Always Threaded.step Safe moves (start port) ↔
      Runs.Along Threaded.step Undisturbed moves (start port) :=
  Runs.always_iff_along (I := Orderly) (fun _ ↦ Orderly.safe)
    (fun _ _ _ h hm hs ↦ h.step hm hs) (fun _ _ _ h hm hs ↦ h.not_safe hm hs) moves
    (orderly_start port)

/-- A second login of a user looks for a device when the first one has assigned its data but not yet
set the flag. -/
def overtaking : List Move :=
  [.arrive ['a'] {}, .arrive ['a'] {}, .advance 0 false, .advance 1 false, .advance 0 false,
    .advance 0 false, .advance 1 false]

/-- Two logins of one user that overtake each other are both given device 1. -/
theorem same_device_twice : ¬ Runs.Always Threaded.step Safe overtaking (start 65530) := by
  intro h
  have hboth : (Runs.after Threaded.step overtaking (start 65530)).map Threaded.threads =
      some [⟨['a'], {}, .assigned 65532 1⟩, ⟨['a'], {}, .reserved 65533 1⟩] := by
    decide
  obtain ⟨s, hs, hthreads⟩ := Option.map_eq_some_iff.mp hboth
  have hsafe := h.after hs
  have hequal := hsafe.distinct 0 1 ⟨['a'], {}, .assigned 65532 1⟩ ⟨['a'], {}, .reserved 65533 1⟩ 1
    (by rw [HasThread, hthreads]; rfl) (by rw [HasThread, hthreads]; rfl) rfl rfl rfl
  exact absurd hequal Nat.zero_ne_one

end Threaded
end Bropdox
