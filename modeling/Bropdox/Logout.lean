import Bropdox.Handshakes

/-!
# Logging out

Devices are counted from 1 at the interface of the `LoginManager`, and from 0 in its arrays.
`login` and `get_client_data` subtract one; `logout` does not.  So logging out the first device of a
user clears the slot of the second, and logging out the second is out of range, which is found out
while `m_map` is locked.

## What is here

* `logout_clears`, `logout_last` and `logout_blocked` are the three ways of a call.
* `Frees` says that exactly this device of this user is not logged in any more and can be given out
  again (`Regains`), and `LogsOut` what a logout should do with any device number.
* `Logs` are the tables that logins and successful logouts lead to.
* `logsOut_iff`: nobody who is logged in is logged out, in any table and on any device.
* `first_device_stays` is a table after one login.
-/

set_option autoImplicit false

namespace Bropdox

open FileSystem Slots Thread

namespace Devices

variable {d : Devices} {i : Nat} {c : ClientData}

/-- Assigning to one element leaves the others. -/
theorem at?_set_of_ne {device : UInt16} (h : i ≠ device.toNat - 1) :
    (d.set i c).at? device = d.at? device := by
  rw [at?, at?]
  split
  · rfl
  · exact List.getElem?_set_ne h

end Devices

namespace LoginManager

variable {m : LoginManager} {u : Name} {d : Devices} {device : UInt16}

theorem clear_of_lt (hd : m.users u = some d) (hlt : device.toNat < maxConcurrentDev) :
    m.clear u device = (.ok (), m.setEntry u (d.set device.toNat {})) := by
  simp only [clear, hd, List.getElem?_eq_getElem (d.length_slots.symm ▸ hlt)]

theorem clear_of_le (hd : m.users u = some d) (hle : maxConcurrentDev ≤ device.toNat) :
    m.clear u device = (.error .outOfRange, m) := by
  simp only [clear, hd, List.getElem?_eq_none (d.length_slots.symm ▸ hle)]

end LoginManager

namespace Server

variable {s s' : Server} {u : Name} {device : UInt16} {c : ClientData}

/-- Who is logged in has an entry. -/
theorem users_of_loggedIn (h : s.LoggedIn u device c) : ∃ d, s.logins.users u = some d := by
  cases hd : s.logins.users u with
  | some d => exact ⟨d, rfl⟩
  | none =>
    obtain ⟨hat, hin⟩ := h
    obtain ⟨i, -, hc⟩ := Devices.at?_eq_some_iff.mp hat
    rw [LoginManager.entry, hd, Option.getD_none] at hc
    rw [List.eq_of_mem_replicate (List.mem_of_getElem? hc)] at hin
    cases hin

/-! ## What `logout` does

The call by the number of the device. -/

theorem logout_outside (h : device = 0 ∨ maxConcurrentDev < device.toNat) :
    (logout u device).run s = .error (.escaped .invalidArgument) s := by
  rw [logout, if_pos h.symm]
  rfl

section Inside

variable (hne : device ≠ 0) (hle : device.toNat ≤ maxConcurrentDev)
include hne hle

theorem logout_inside : (logout u device).run s = (do
    lock .map
    onLogins (·.clear u device)
    unlock .map
    return true : Thread Bool).run s := by
  have hin : ¬ (device.toNat > maxConcurrentDev ∨ device = 0) :=
    not_or.mpr ⟨Nat.not_lt.mpr hle, hne⟩
  rw [logout, if_neg hin]

/-- The slot that is cleared is the one behind the device's. -/
theorem logout_clears {d : Devices} (hmap : s.held .map = false) (hd : s.logins.users u = some d)
    (hlt : device.toNat < maxConcurrentDev) : (logout u device).run s =
      .ok true { s with logins := s.logins.setEntry u (d.set device.toNat {}) } := by
  rw [logout_inside hne hle, bind_ok (lock_free hmap),
    bind_ok (onLogins_ok (LoginManager.clear_of_lt hd hlt)), bind_ok run_unlock, EStateM.run_pure]
  dsimp only
  rw [update_update_held hmap]

/-- The last device has no slot behind it, and the mutex stays locked. -/
theorem logout_last {d : Devices} (hmap : s.held .map = false) (hd : s.logins.users u = some d)
    (heq : device.toNat = maxConcurrentDev) : (logout u device).run s =
      .error (.escaped .outOfRange) { s with held := Function.update s.held .map true } := by
  rw [logout_inside hne hle, bind_ok (lock_free hmap),
    bind_error (onLogins_error (LoginManager.clear_of_le hd heq.ge))]

/-- Whoever finds the mutex locked waits for ever. -/
theorem logout_blocked (hmap : s.held .map = true) :
    (logout u device).run s = .error .blocked s := by
  have hlock : (lock .map).run s = .error .blocked s := by simp [lock, hmap]
  rw [logout_inside hne hle, bind_error hlock]

end Inside

/-! ## What it should do

The specification, and the law. -/

/-- Some login of a user is given the device, now or after others. -/
inductive Regains (u : Name) (device : UInt16) : Server → Prop
  /-- The next login is given it. -/
  | now {env : Surroundings} {a : SockAddr} {q : UInt32} {s s' : Server}
      (h : (login env u a q).run s = .ok device s') : Regains u device s
  /-- A later login is given it. -/
  | later {env : Surroundings} {a : SockAddr} {q : UInt32} {other : UInt16} {s s' : Server}
      (h : (login env u a q).run s = .ok other s') (hs : Regains u device s') : Regains u device s

/-- Exactly this device of this user is not logged in any more. -/
structure Frees (s s' : Server) (u : Name) (device : UInt16) : Prop where
  /-- The device is not logged in. -/
  freed : ∀ c, ¬ s'.LoggedIn u device c
  /-- The other devices of the user are as they were. -/
  devices : ∀ other, other ≠ device →
    (s'.logins.entry u).at? other = (s.logins.entry u).at? other
  /-- The other users are as they were. -/
  users : ∀ u', u' ≠ u → s'.logins.entry u' = s.logins.entry u'
  /-- The mutex is free. -/
  unlocked : s'.held .map = false
  /-- The device can be given out again. -/
  again : Regains u device s'

/-- `logout` logs out the device it is given, and refuses what is no device. -/
structure LogsOut (s : Server) (u : Name) (device : UInt16) : Prop where
  /-- Who is logged in is logged out. -/
  frees : ∀ c, s.LoggedIn u device c →
    ∃ s', (logout u device).run s = .ok true s' ∧ Frees s s' u device
  /-- Other numbers are refused, and nothing changes. -/
  refuses : device = 0 ∨ maxConcurrentDev < device.toNat →
    ∃ e, (logout u device).run s = .error (.escaped e) s

/-- What a table is reached by: logins and logouts that succeed, one after another. -/
inductive Logs (p : UInt32) : Server → Prop
  /-- Nobody has logged in. -/
  | start : Logs p (start p)
  /-- Somebody logs in. -/
  | login {env : Surroundings} {u : Name} {a : SockAddr} {q : UInt32} {device : UInt16}
      {s s' : Server} (hs : Logs p s) (h : (login env u a q).run s = .ok device s') : Logs p s'
  /-- Somebody is logged out. -/
  | logout {u : Name} {device : UInt16} {s s' : Server} (hs : Logs p s)
      (h : (logout u device).run s = .ok true s') : Logs p s'

/-- Whoever is logged in stays logged in, or the call does not return. -/
theorem not_logsOut (h : s.LoggedIn u device c) : ¬ LogsOut s u device := by
  intro hout
  obtain ⟨s', hrun, hfrees⟩ := hout.frees c h
  obtain ⟨d, hd⟩ := users_of_loggedIn h
  obtain ⟨hat, hin⟩ := h
  have hne : device ≠ 0 := by
    rintro rfl
    rw [Devices.at?_zero] at hat
    cases hat
  have hle := Devices.le_of_at? hat
  cases hmap : s.held .map with
  | true =>
    rw [logout_blocked hne hle hmap] at hrun
    cases hrun
  | false =>
    rcases Nat.lt_or_eq_of_le hle with hlt | heq
    · -- the slot behind it has been cleared, and this one is as it was
      rw [logout_clears hne hle hmap hd hlt] at hrun
      cases hrun
      refine hfrees.freed c ⟨?_, hin⟩
      have hpos : 0 < device.toNat := Nat.pos_of_ne_zero fun h0 ↦ hne (UInt16.toNat_inj.mp h0)
      dsimp only
      rw [LoginManager.entry_setEntry, Devices.at?_set_of_ne (by omega), ← hat,
        LoginManager.entry, hd, Option.getD_some]
    · rw [logout_last hne hle hmap hd heq] at hrun
      cases hrun

/-- **Nobody who is logged in is logged out**, in any table and on any device. -/
theorem logsOut_iff (s : Server) (u : Name) (device : UInt16) :
    LogsOut s u device ↔ ∀ c, ¬ s.LoggedIn u device c := by
  constructor
  · exact fun h c hc ↦ not_logsOut hc h
  · intro h
    exact ⟨fun c hc ↦ absurd hc (h c), fun hout ↦ ⟨_, logout_outside hout⟩⟩

/-- The table after one login. -/
def oneLogin (p : UInt32) (u : Name) (a : SockAddr) (q : UInt32) : Server where
  logins := LoginManager.setEntry {} u ((LoginManager.entry {} u).modify 1 fun _ ↦ loggedIn u a q 0)
  ports := (start p).ports

theorem logs_oneLogin (p : UInt32) (u : Name) (a : SockAddr) (q : UInt32) :
    Logs p (oneLogin p u a q) := by
  have hlogin : (login {} u a q).run (start p) = .ok 1 (oneLogin p u a q) :=
    login_free rfl rfl rfl rfl
  exact .login .start hlogin

theorem loggedIn_oneLogin (p : UInt32) (u : Name) (a : SockAddr) (q : UInt32) :
    (oneLogin p u a q).LoggedIn u 1 (loggedIn u a q 0) := by
  refine ⟨?_, rfl⟩
  show ((LoginManager.setEntry _ u _).entry u).at? _ = _
  rw [LoginManager.entry_setEntry, Devices.at?_modify]
  rfl

/-- The one who has just logged in is not logged out. -/
theorem first_device_stays : ¬ ∀ p s, Logs p s → ∀ u device, LogsOut s u device := by
  intro h
  exact not_logsOut (loggedIn_oneLogin 65530 ['a'] {} 65532)
    (h 65530 _ (logs_oneLogin 65530 ['a'] {} 65532) ['a'] _)

end Server
end Bropdox
