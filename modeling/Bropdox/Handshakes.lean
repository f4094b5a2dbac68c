import Bropdox.Server

/-!
# A handshake and its answer

What `treat_client_request` does to the tables of the server and what it answers, case by case.  A
handshake is a login, a request of a device that is logged in, or one of a device that is not; a
login may find no free device, or a port at which the request handler cannot be constructed.

## What is here

* `login_free`, `login_full` and `login_unconstructed` run `LoginManager::login` in each of the
  cases.
* `Visit` is a handshake that is handled, with where it comes from and what the surroundings do to
  it, and `Visit.treat` the thread that handles it.
* `treat_admitted` and its siblings run a request thread to its end, one for each way it can go.
* `Server.leaves` is the state that a thread leaves, however it ends, `Server.Answers` what it has
  answered, and `Server.LoggedIn` says that a user is logged in on a device.
* `sameTables_leaves`: a handshake that is not a login changes nothing but which users have an
  entry.
* `entry_leaves_of_ne`: a handshake of one user changes nothing for the others.
-/

set_option autoImplicit false

namespace Bropdox

open FileSystem Slots

/-! ## Running a thread

The thread is code of the monad `Server.M`, which this section takes apart: critical sections, and
the ports. -/

namespace Thread

variable {α β : Type} {x : Thread α} {f : α → Thread β} {s s' : Server} {a : α} {e : Halt}

theorem bind_ok (h : x.run s = .ok a s') : (x >>= f).run s = (f a).run s' := by
  rw [EStateM.run_bind, h]

theorem bind_error (h : x.run s = .error e s') : (x >>= f).run s = .error e s' := by
  rw [EStateM.run_bind, h]

end Thread

namespace Server

open Thread

variable {α : Type} {s : Server} {m : Mutex} {a : α} {e : Exn} {ms : LoginManager}

theorem lock_free (h : s.held m = false) :
    (lock m).run s = .ok () { s with held := Function.update s.held m true } := by
  simp [lock, h]

theorem onLogins_ok {f : LoginManager → Except Exn α × LoginManager}
    (h : f s.logins = (.ok a, ms)) : (onLogins f).run s = .ok a { s with logins := ms } := by
  rw [onLogins, bind_ok (EStateM.run_get s), bind_ok (EStateM.run_set ..), h]
  rfl

theorem onLogins_error {f : LoginManager → Except Exn α × LoginManager}
    (h : f s.logins = (.error e, ms)) :
    (onLogins f).run s = .error (.escaped e) { s with logins := ms } := by
  rw [onLogins, bind_ok (EStateM.run_get s), bind_ok (EStateM.run_set ..), h]
  rfl

theorem run_unlock :
    (unlock m).run s = .ok () { s with held := Function.update s.held m false } :=
  EStateM.run_modify ..

/-- A critical section leaves its mutex as it was. -/
theorem update_update_held (h : s.held m = false) :
    Function.update (Function.update s.held m true) m false = s.held := by
  rw [Function.update_idem, ← h, Function.update_eq_self]

theorem reservePort_free (h : s.held .port = false) :
    reservePort.run s = .ok s.ports.reservePort.1 { s with ports := s.ports.reservePort.2 } := by
  rw [reservePort, bind_ok (lock_free h), bind_ok (EStateM.run_get _), bind_ok (EStateM.run_set ..),
    bind_ok run_unlock, EStateM.run_pure]
  dsimp only
  rw [update_update_held h]

end Server

/-! ## The tables

What is found under a device number, and the three ways a login goes. -/

/-- The first free port is given out. -/
theorem PortManager.reservePort_free {m : PortManager} {i : Nat}
    (h : firstFree id m.portMap = some i) : m.reservePort =
      (m.serverPort + .ofNat (i + 1), { m with portMap := m.portMap.set i true }) := by
  rw [reservePort, h]

/-- Devices have small numbers. -/
theorem toNat_device {i : Nat} (hi : i < maxConcurrentDev) :
    (UInt16.ofNat (i + 1)).toNat = i + 1 := by
  rw [UInt16.toNat_ofNat', Nat.mod_eq_of_lt]
  rw [maxConcurrentDev] at hi
  omega

namespace Devices

variable {d : Devices} {i j : Nat} {f : ClientData → ClientData}

@[ext] theorem ext {d d' : Devices} (h : d.slots = d'.slots) : d = d' := by
  cases d
  cases d'
  congr

theorem lt_of_getElem? {c : ClientData} (h : d.slots[i]? = some c) : i < maxConcurrentDev := by
  obtain ⟨hi, -⟩ := List.getElem?_eq_some_iff.mp h
  rwa [d.length_slots] at hi

/-- What a device that was given out refers to. -/
theorem at?_device (hi : i < maxConcurrentDev) : d.at? (.ofNat (i + 1)) = d.slots[i]? := by
  have hne : UInt16.ofNat (i + 1) ≠ 0 := by
    intro h
    have := congrArg UInt16.toNat h
    rw [toNat_device hi] at this
    exact Nat.succ_ne_zero i this
  rw [at?, if_neg hne, toNat_device hi, Nat.add_sub_cancel]

theorem exists_at? (d : Devices) (hi : i < maxConcurrentDev) :
    ∃ c, d.at? (.ofNat (i + 1)) = some c := by
  rw [at?_device hi]
  exact ⟨_, List.getElem?_eq_getElem (d.length_slots.symm ▸ hi)⟩

theorem slots_modify (hi : i < maxConcurrentDev) :
    (d.modify (.ofNat (i + 1)) f).slots = d.slots.modify i f := by
  show d.slots.modify (_ - 1) f = _
  rw [toNat_device hi, Nat.add_sub_cancel]

theorem at?_modify {device : UInt16} : (d.modify device f).at? device = (d.at? device).map f := by
  rw [at?, at?]
  split
  · rfl
  · exact List.getElem?_modify_eq ..

/-- Writing a whole element. -/
theorem slots_assign (hi : i < maxConcurrentDev) {c : ClientData} :
    (d.modify (.ofNat (i + 1)) fun _ ↦ c).slots = d.slots.set i c := by
  rw [slots_modify hi, List.set_eq_modify]

@[simp] theorem modify_modify {device : UInt16} {g : ClientData → ClientData} :
    (d.modify device f).modify device g = d.modify device (g ∘ f) :=
  ext (List.modify_modify_eq ..)

/-- A device number that leads to a slot is one more than the place of the slot. -/
theorem at?_eq_some_iff {device : UInt16} {c : ClientData} : d.at? device = some c ↔
    ∃ i, device = .ofNat (i + 1) ∧ d.slots[i]? = some c := by
  constructor
  · intro h
    rw [at?, Option.ite_none_left_eq_some] at h
    obtain ⟨hne, hc⟩ := h
    have hpos : 0 < device.toNat := Nat.pos_of_ne_zero fun h0 ↦ hne (UInt16.toNat_inj.mp h0)
    refine ⟨device.toNat - 1, ?_, hc⟩
    rw [Nat.sub_add_cancel hpos, UInt16.ofNat_toNat]
  · rintro ⟨i, rfl, hc⟩
    rw [at?_device (lt_of_getElem? hc), hc]

/-- There is no device 0. -/
theorem at?_zero : d.at? 0 = none := if_pos rfl

/-- The numbers of devices. -/
theorem le_of_at? {device : UInt16} {c : ClientData} (h : d.at? device = some c) :
    device.toNat ≤ maxConcurrentDev := by
  obtain ⟨i, rfl, hc⟩ := at?_eq_some_iff.mp h
  rw [toNat_device (lt_of_getElem? hc)]
  exact lt_of_getElem? hc

/-- Different devices have different numbers. -/
theorem device_inj (hi : i < maxConcurrentDev) (hj : j < maxConcurrentDev)
    (h : UInt16.ofNat (i + 1) = .ofNat (j + 1)) : i = j := by
  have := congrArg UInt16.toNat h
  rwa [toNat_device hi, toNat_device hj, Nat.add_right_cancel_iff] at this

end Devices

namespace LoginManager

variable {m : LoginManager} {u u' : Name} {d : Devices} {i : Nat} {c : ClientData}

@[simp] theorem entry_setEntry : (m.setEntry u d).entry u = d := by
  simp [entry, setEntry]

theorem entry_setEntry_of_ne (h : u' ≠ u) : (m.setEntry u d).entry u' = m.entry u' := by
  simp [entry, setEntry, Function.update_of_ne h]

@[simp] theorem users_setEntry : (m.setEntry u d).users u = some d := by simp [setEntry]

@[simp] theorem setEntry_setEntry {d' : Devices} :
    (m.setEntry u d).setEntry u d' = m.setEntry u d' := by
  simp [setEntry]

theorem reserveDevice_free (h : firstFree ClientData.initialized (m.entry u).slots = some i) :
    m.reserveDevice u = (.ok (.ofNat (i + 1)), m.setEntry u ((m.entry u).modify (.ofNat (i + 1))
      fun item ↦ { item with initialized := true })) := by
  rw [reserveDevice, h]

theorem reserveDevice_full (h : firstFree ClientData.initialized (m.entry u).slots = none) :
    m.reserveDevice u = (.error .domainError, m.setEntry u (m.entry u)) := by
  rw [reserveDevice, h]

theorem assign_of_at? {device : UInt16} (hd : m.users u = some d) (hc : d.at? device = some c)
    (data : ClientData) :
    m.assign u device data = (.ok (), m.setEntry u (d.modify device fun _ ↦ data)) := by
  simp only [assign, hd, hc]

theorem setInitialized_of_at? {device : UInt16} (hd : m.entry u = d)
    (hc : d.at? device = some c) :
    m.setInitialized u device =
      (.ok (), m.setEntry u (d.modify device fun data ↦ { data with initialized := true })) := by
  simp only [setInitialized, hd, hc]

theorem getClientData_of_at? {device : UInt16} (hc : (m.entry u).at? device = some c) :
    m.getClientData u device = (.ok c, m.setEntry u (m.entry u)) := by
  simp only [getClientData, hc]

theorem getClientData_none {device : UInt16} (hc : (m.entry u).at? device = none) :
    m.getClientData u device = (.error .outOfRange, m.setEntry u (m.entry u)) := by
  simp only [getClientData, hc]

end LoginManager

namespace Server

open Thread

variable {s : Server} {env : Surroundings} {u : Name} {a : SockAddr} {q : UInt32} {i : Nat}

/-- What `login` leaves in the slot. -/
def loggedIn (u : Name) (a : SockAddr) (q : UInt32) (i : Nat) : ClientData where
  handler := ⟨a, q, .ofNat (i + 1), u⟩
  port := q
  initialized := true

/-- `login` where nothing is in its way. -/
theorem login_free (hfree : firstFree ClientData.initialized (s.logins.entry u).slots = some i)
    (hlogin : s.held .login = false) (hmap : s.held .map = false) (hcon : env.construct = none) :
    (login env u a q).run s = .ok (.ofNat (i + 1)) { s with
      logins := s.logins.setEntry u
        ((s.logins.entry u).modify (.ofNat (i + 1)) fun _ ↦ loggedIn u a q i) } := by
  obtain ⟨⟨c, hc, -⟩, -⟩ := firstFree_eq_some_iff.mp hfree
  have hat := (Devices.at?_device (Devices.lt_of_getElem? hc)).trans hc
  -- the slot the three accesses refer to is there each time
  have hreserved := congrArg (Option.map fun item ↦ { item with initialized := true }) hat
  rw [← Devices.at?_modify] at hreserved
  have hassigned := congrArg (Option.map fun _ ↦
    (⟨⟨a, q, .ofNat (i + 1), u⟩, q, env.unset⟩ : ClientData)) hreserved
  rw [← Devices.at?_modify] at hassigned
  rw [login, bind_ok (lock_free hlogin),
    bind_ok (onLogins_ok (LoginManager.reserveDevice_free hfree)),
    bind_ok run_unlock, construct, hcon, bind_ok (EStateM.run_pure ..)]
  dsimp only
  rw [update_update_held hlogin, bind_ok (lock_free (by exact hmap)),
    bind_ok (onLogins_ok (LoginManager.assign_of_at? LoginManager.users_setEntry hreserved _)),
    bind_ok run_unlock,
    bind_ok (onLogins_ok (LoginManager.setInitialized_of_at?
      LoginManager.entry_setEntry hassigned)),
    EStateM.run_pure]
  dsimp only
  rw [update_update_held hmap]
  simp only [LoginManager.setEntry_setEntry, Devices.modify_modify]
  rfl

/-- `login` where all devices are in use. -/
theorem login_full (hfull : firstFree ClientData.initialized (s.logins.entry u).slots = none)
    (hlogin : s.held .login = false) :
    (login env u a q).run s = .error (.escaped .domainError) { s with
      logins := s.logins.setEntry u (s.logins.entry u)
      held := Function.update s.held .login true } := by
  rw [login, bind_ok (lock_free hlogin),
    bind_error (onLogins_error (LoginManager.reserveDevice_full hfull))]

/-- `login` where the request handler cannot be constructed. -/
theorem login_unconstructed {e : Exn}
    (hfree : firstFree ClientData.initialized (s.logins.entry u).slots = some i)
    (hlogin : s.held .login = false) (hcon : env.construct = some e) :
    (login env u a q).run s = .error (.escaped e) { s with
      logins := s.logins.setEntry u ((s.logins.entry u).modify (.ofNat (i + 1))
        fun item ↦ { item with initialized := true }) } := by
  have hthrow : ∀ s' : Server, (construct env a q (.ofNat (i + 1)) u).run s'
      = .error (.escaped e) s' := by
    intro s'
    rw [construct, hcon]
    rfl
  rw [login, bind_ok (lock_free hlogin),
    bind_ok (onLogins_ok (LoginManager.reserveDevice_free hfree)),
    bind_ok run_unlock, bind_error (hthrow _)]
  dsimp only
  rw [update_update_held hlogin]

/-! ## A handshake and its answer

The thread of a handshake, run to its end. -/

/-- A handshake that is handled. -/
structure Visit where
  /-- The handshake. -/
  hand : Handshake
  /-- Who sent it. -/
  clientAddr : SockAddr
  /-- What the thread meets. -/
  env : Surroundings := {}

/-- The request thread. -/
def Visit.treat (v : Visit) : Thread Unit := treatClientRequest v.env v.hand v.clientAddr

/-- The handshake is a login. -/
def Visit.IsLogin (v : Visit) : Prop := v.hand.device = 0 ∧ v.hand.reqType = .login

instance (v : Visit) : Decidable v.IsLogin := inferInstanceAs (Decidable (_ ∧ _))

/-- The entry of the user is created if it is not there. -/
def touch (s : Server) (u : Name) : Server :=
  { s with logins := s.logins.setEntry u (s.logins.entry u) }

/-- An answer is sent. -/
def answer (s : Server) (a : SockAddr) (syn : Syn) : Server :=
  { s with sent := s.sent ++ [(a, syn)] }

/-- The negative answer. -/
def refusal : Syn := ⟨false, 0, 0⟩

/-- The state after a login on device `i + 1`. -/
def welcome (s : Server) (v : Visit) (i : Nat) : Server where
  logins := s.logins.setEntry v.hand.userid ((s.logins.entry v.hand.userid).modify (.ofNat (i + 1))
    fun _ ↦ loggedIn v.hand.userid v.clientAddr s.ports.reservePort.1 i)
  ports := s.ports.reservePort.2
  held := s.held
  sent := s.sent ++ [(v.clientAddr, ⟨true, s.ports.reservePort.1, .ofNat (i + 1)⟩)]

/-- No mutex is locked. -/
def Unlocked (s : Server) : Prop := ∀ m, s.held m = false

section Treat

variable {v : Visit}

theorem treat_login (hlogin : v.IsLogin) : v.treat = (do
    let reservedPort ← reservePort
    let device ← login v.env v.hand.userid v.clientAddr reservedPort
    sendSyn v.clientAddr ⟨true, reservedPort, device⟩) := by
  rw [Visit.treat, treatClientRequest, if_pos hlogin.1, if_pos hlogin.2]

theorem treat_admitted (hlogin : v.IsLogin) (hs : s.Unlocked)
    (hfree : firstFree ClientData.initialized (s.logins.entry v.hand.userid).slots = some i)
    (hcon : v.env.construct = none) : v.treat.run s = .ok () (s.welcome v i) := by
  rw [treat_login hlogin, bind_ok (reservePort_free (hs .port)),
    bind_ok (login_free (s := { s with ports := s.ports.reservePort.2 })
      hfree (hs .login) (hs .map) hcon)]
  rfl

theorem treat_full (hlogin : v.IsLogin) (hs : s.Unlocked)
    (hfull : firstFree ClientData.initialized (s.logins.entry v.hand.userid).slots = none) :
    v.treat.run s = .error (.escaped .domainError) { s.touch v.hand.userid with
      ports := s.ports.reservePort.2
      held := Function.update s.held .login true } := by
  rw [treat_login hlogin, bind_ok (reservePort_free (hs .port)),
    bind_error (login_full (s := { s with ports := s.ports.reservePort.2 }) hfull (hs .login))]
  rfl

theorem treat_unconstructed (hlogin : v.IsLogin) (hs : s.Unlocked) {e : Exn}
    (hfree : firstFree ClientData.initialized (s.logins.entry v.hand.userid).slots = some i)
    (hcon : v.env.construct = some e) :
    v.treat.run s = .error (.escaped e) { s with
      logins := s.logins.setEntry v.hand.userid
        ((s.logins.entry v.hand.userid).modify (.ofNat (i + 1))
          fun item ↦ { item with initialized := true })
      ports := s.ports.reservePort.2 } := by
  rw [treat_login hlogin, bind_ok (reservePort_free (hs .port)),
    bind_error (login_unconstructed (s := { s with ports := s.ports.reservePort.2 })
      hfree (hs .login) hcon)]

theorem treat_refused (hdevice : v.hand.device = 0) (hreq : v.hand.reqType ≠ .login) :
    v.treat.run s = .ok () (s.answer v.clientAddr refusal) := by
  rw [Visit.treat, treatClientRequest, if_pos hdevice, if_neg hreq]
  rfl

theorem treat_outOfRange (hdevice : v.hand.device ≠ 0)
    (hat : (s.logins.entry v.hand.userid).at? v.hand.device = none) :
    v.treat.run s = .error (.escaped .outOfRange) (s.touch v.hand.userid) := by
  rw [Visit.treat, treatClientRequest, if_neg hdevice,
    bind_error (onLogins_error (LoginManager.getClientData_none hat))]
  rfl

theorem treat_stranger (hdevice : v.hand.device ≠ 0) {c : ClientData}
    (hat : (s.logins.entry v.hand.userid).at? v.hand.device = some c)
    (hc : c.initialized = false) :
    v.treat.run s = .ok () ((s.touch v.hand.userid).answer v.clientAddr refusal) := by
  rw [Visit.treat, treatClientRequest, if_neg hdevice,
    bind_ok (onLogins_ok (LoginManager.getClientData_of_at? hat)), hc]
  rfl

/-- How a thread ends that only has to handle the request. -/
def ending : Except Halt Bool → Server → EStateM.Result Halt Server Unit
  | .ok _, s => .ok () s
  | .error e, s => .error e s

theorem treat_known (hdevice : v.hand.device ≠ 0) {c : ClientData}
    (hat : (s.logins.entry v.hand.userid).at? v.hand.device = some c)
    (hc : c.initialized = true) :
    v.treat.run s = ending v.env.handled
      ((s.touch v.hand.userid).answer v.clientAddr ⟨true, c.port, c.handler.device⟩) := by
  rw [Visit.treat, treatClientRequest, if_neg hdevice,
    bind_ok (onLogins_ok (LoginManager.getClientData_of_at? hat)), hc]
  rw [handleRequest]
  cases v.env.handled <;> rfl

end Treat

/-! ## What a handshake changes

The same as a relation between the tables before and after, which is all that `SessionTable.lean`
and `Accounts.lean` use. -/

/-- The state a thread leaves, however it ends. -/
def leaves (v : Visit) (s : Server) : Server :=
  match v.treat.run s with
  | .ok _ s' => s'
  | .error _ s' => s'

theorem leaves_ok {v : Visit} {s' : Server} (h : v.treat.run s = .ok () s') : leaves v s = s' := by
  rw [leaves, h]

theorem leaves_error {v : Visit} {s' : Server} {e : Halt} (h : v.treat.run s = .error e s') :
    leaves v s = s' := by
  rw [leaves, h]

/-- The thread of a handshake sends these answers. -/
def Answers (s : Server) (v : Visit) (out : List (SockAddr × Syn)) : Prop :=
  (leaves v s).sent = s.sent ++ out

theorem answers_iff {v : Visit} {out out' : List (SockAddr × Syn)} (h : s.Answers v out) :
    s.Answers v out' ↔ out' = out := by
  rw [Answers, h, List.append_cancel_left_eq, eq_comm]

/-- A user is logged in on a device. -/
def LoggedIn (s : Server) (u : Name) (device : UInt16) (c : ClientData) : Prop :=
  (s.logins.entry u).at? device = some c ∧ c.initialized = true

/-- The tables are the same, up to empty entries. -/
structure SameTables (s s' : Server) : Prop where
  /-- Every user has the same devices. -/
  entry : ∀ u, s'.logins.entry u = s.logins.entry u
  /-- The same ports are taken. -/
  ports : s'.ports = s.ports
  /-- The same mutexes are locked. -/
  held : s'.held = s.held

theorem sameTables_answer {syn : Syn} : SameTables s (s.answer a syn) := ⟨fun _ ↦ rfl, rfl, rfl⟩

theorem sameTables_touch : SameTables s (s.touch u) where
  entry u' := by
    by_cases h : u' = u
    · rw [h]
      exact LoginManager.entry_setEntry
    · exact LoginManager.entry_setEntry_of_ne h
  ports := rfl
  held := rfl

theorem SameTables.trans {s' s'' : Server} (h : SameTables s s') (h' : SameTables s' s'') :
    SameTables s s'' where
  entry u := (h'.entry u).trans (h.entry u)
  ports := h'.ports.trans h.ports
  held := h'.held.trans h.held

theorem leaves_ending {v : Visit} {r : Except Halt Bool} {s' : Server}
    (h : v.treat.run s = ending r s') : leaves v s = s' := by
  cases r with
  | ok b => exact leaves_ok h
  | error e => exact leaves_error h

/-- Only a login changes the tables. -/
theorem sameTables_leaves {v : Visit} (hlogin : ¬ v.IsLogin) : SameTables s (leaves v s) := by
  by_cases hdevice : v.hand.device = 0
  · rw [leaves_ok (treat_refused hdevice fun hreq ↦ hlogin ⟨hdevice, hreq⟩)]
    exact sameTables_answer
  · cases hat : (s.logins.entry v.hand.userid).at? v.hand.device with
    | none =>
      rw [leaves_error (treat_outOfRange hdevice hat)]
      exact sameTables_touch
    | some c =>
      cases hc : c.initialized with
      | false =>
        rw [leaves_ok (treat_stranger hdevice hat hc)]
        exact sameTables_touch.trans sameTables_answer
      | true =>
        rw [leaves_ending (treat_known hdevice hat hc)]
        exact sameTables_touch.trans sameTables_answer

/-- The answer to a handshake that names a device. -/
theorem answers_device {v : Visit} (hdevice : v.hand.device ≠ 0) {c : ClientData}
    (hat : (s.logins.entry v.hand.userid).at? v.hand.device = some c) :
    s.Answers v [(v.clientAddr,
      if c.initialized then ⟨true, c.port, c.handler.device⟩ else refusal)] := by
  rw [Answers]
  cases hc : c.initialized with
  | false =>
    rw [leaves_ok (treat_stranger hdevice hat hc)]
    rfl
  | true =>
    rw [leaves_ending (treat_known hdevice hat hc)]
    rfl

/-- A handshake of one user changes nothing for the others. -/
theorem entry_leaves_of_ne {v : Visit} (hs : s.Unlocked) (hu : u ≠ v.hand.userid) :
    (leaves v s).logins.entry u = s.logins.entry u := by
  by_cases hlogin : v.IsLogin
  · have hother : ∀ {d}, (s.logins.setEntry v.hand.userid d).entry u = s.logins.entry u :=
      LoginManager.entry_setEntry_of_ne hu
    cases hfree : firstFree ClientData.initialized (s.logins.entry v.hand.userid).slots with
    | none =>
      rw [leaves_error (treat_full hlogin hs hfree)]
      exact hother
    | some i =>
      cases hcon : v.env.construct with
      | none =>
        rw [leaves_ok (treat_admitted hlogin hs hfree hcon)]
        exact hother
      | some e =>
        rw [leaves_error (treat_unconstructed hlogin hs hfree hcon)]
        exact hother
  · exact (sameTables_leaves hlogin).entry u

end Server
end Bropdox
