import Bropdox.Exceptions
import Bropdox.SessionTable

/-!
# What the server refuses

Two things could be refused: a login that cannot be served, and a handshake of somebody who is not
logged in.

* A login never is.  With no device left the exception of `reserve_device` ends the process, with
  `m_login` locked and a port gone (`treat_full`); with no port left the login goes on with port 0;
  and a request handler that cannot be constructed ends the process, too, with a port and a device
  gone (`treat_unconstructed`).
* A handshake is, as long as its device number is one that there can be.  If that device is logged
  in, its request is handled on the same thread, so that whatever the request handler throws ends
  the process as well; which names and files these are is in `Bropdox/Exceptions.lean`
  (`handshake_answered_iff`).
-/

set_option autoImplicit false

namespace Bropdox

open FileSystem Session Program SocketHandler Slots

namespace Server

variable {s : Server} {v : Visit} {p : UInt32}

/-- A server has come here by handling handshakes. -/
inductive Reachable (p : UInt32) : Server → Prop
  /-- A server that has just been started. -/
  | start : Reachable p (start p)
  /-- A server that has come here handles one more handshake. -/
  | step {s s' : Server} {v : Visit} (hr : Reachable p s) (hs : v.treat.run s = .ok () s') :
    Reachable p s'

/-- A login that is served locks nothing for good. -/
theorem unlocked_of_ok {s' : Server} (h : s.Unlocked) (hs : v.treat.run s = .ok () s') :
    s'.Unlocked := by
  by_cases hlogin : v.IsLogin
  · cases hfree : firstFree ClientData.initialized (s.logins.entry v.hand.userid).slots with
    | none =>
      rw [treat_full hlogin h hfree] at hs
      cases hs
    | some i =>
      cases hcon : v.env.construct with
      | none =>
        rw [treat_admitted hlogin h hfree hcon] at hs
        cases hs
        exact h
      | some e =>
        rw [treat_unconstructed hlogin h hfree hcon] at hs
        cases hs
  · have hsame := sameTables_leaves (s := s) hlogin
    rw [leaves_ok hs] at hsame
    exact fun m ↦ (congrFun hsame.held m).trans (h m)

/-- Between two handshakes no mutex is locked. -/
theorem Reachable.unlocked (hr : Reachable p s) : s.Unlocked := by
  induction hr with
  | start => exact fun _ ↦ rfl
  | step _ hs ih => exact unlocked_of_ok ih hs

/-! ## Logins

The three reasons for which a login cannot be served, and what becomes of it. -/

/-- A login that cannot be served. -/
def CannotBeServed (s : Server) (v : Visit) : Prop :=
  v.IsLogin ∧ ((∀ c ∈ (s.logins.entry v.hand.userid).slots, c.initialized = true) ∨
    s.ports.reservePort.1 = 0 ∨ v.env.construct = some .socketBadBind)

/-- A failed login leaves the server as it was: the client is told, and that is all. -/
def FailsCleanly (s : Server) (v : Visit) : Prop :=
  ∃ s', v.treat.run s = .ok () s' ∧
    (∃ syn, s.Answers v [(v.clientAddr, syn)] ∧ syn.confirmation = false) ∧
    (∀ u device c, s'.LoggedIn u device c ↔ s.LoggedIn u device c) ∧
    s'.ports.portMap = s.ports.portMap ∧ s'.Unlocked

/-- **No login fails cleanly**: the thread is ended by an exception, or the client is told that it
has been served. -/
theorem login_never_fails_cleanly (hr : Reachable p s) (hv : CannotBeServed s v) :
    ¬ FailsCleanly s v := by
  rintro ⟨s', hs, ⟨syn, hans, hneg⟩, -⟩
  have hlogin := hv.1
  cases hfree : firstFree ClientData.initialized (s.logins.entry v.hand.userid).slots with
  | none =>
    rw [treat_full hlogin hr.unlocked hfree] at hs
    cases hs
  | some i =>
    cases hcon : v.env.construct with
    | none =>
      have hpos : s.Answers v [(v.clientAddr, ⟨true, s.ports.reservePort.1, .ofNat (i + 1)⟩)] := by
        rw [Answers, leaves_ok (treat_admitted hlogin hr.unlocked hfree hcon)]
        rfl
      cases (answers_iff hpos).mp hans
      cases hneg
    | some e =>
      rw [treat_unconstructed hlogin hr.unlocked hfree hcon] at hs
      cases hs

/-- A server on which both devices of a user are taken. -/
def bothTaken (u : Name) : Server := ((start 65530).welcome (loginOf u) 0).welcome (loginOf u) 1

theorem reachable_bothTaken (u : Name) : Reachable 65530 (bothTaken u) := by
  refine .step (.step .start (treat_admitted (v := loginOf u) ⟨rfl, rfl⟩ (fun _ ↦ rfl) rfl rfl))
    (treat_admitted (v := loginOf u) ⟨rfl, rfl⟩ (fun _ ↦ rfl) ?_ rfl)
  rw [welcome, LoginManager.entry_setEntry]
  rfl

/-- With both devices taken, a login cannot be served. -/
theorem cannotBeServed_bothTaken : CannotBeServed (bothTaken ['a']) (loginOf ['a']) :=
  ⟨⟨rfl, rfl⟩, .inl (by decide)⟩

theorem full_login_not_clean : ¬ FailsCleanly (bothTaken ['a']) (loginOf ['a']) :=
  login_never_fails_cleanly (reachable_bothTaken _) cannotBeServed_bothTaken

/-- The third login of a user cannot be served, and ends the process. -/
theorem third_login_escapes : Reachable 65530 (bothTaken ['a']) ∧
    CannotBeServed (bothTaken ['a']) (loginOf ['a']) ∧
    ¬ FailsCleanly (bothTaken ['a']) (loginOf ['a']) := by
  have hfull : ∀ c ∈ ((bothTaken ['a']).logins.entry ['a']).slots, c.initialized = true := by
    decide
  refine ⟨reachable_bothTaken _, cannotBeServed_bothTaken, ?_⟩
  rintro ⟨s', hs, -⟩
  rw [treat_full ⟨rfl, rfl⟩ (fun _ ↦ rfl) (firstFree_eq_none_iff.mpr hfull)] at hs
  cases hs

/-! ## Handshakes that are no logins

The request of a device, from its handshake to the answer, with how `handle_request` ends in
between. -/

section Handling

variable {read : Reading sessionWire} {h : FileHost} {req : Req}
  {inbox : List (Parcel sessionWire)}

end Handling

/-- A handshake that is no login is answered: once, positively exactly if the device is logged in,
and a negative answer changes nothing. -/
def Answered (s : Server) (v : Visit) : Prop :=
  (∃ syn, s.Answers v [(v.clientAddr, syn)] ∧
    (syn.confirmation = true ↔ ∃ c, s.LoggedIn v.hand.userid v.hand.device c) ∧
    (syn.confirmation = false →
      ∀ u device c, (leaves v s).LoggedIn u device c ↔ s.LoggedIn u device c)) ∧
  ∀ e s', v.treat.run s ≠ .error (.escaped e) s'

/-- Who is logged in can be read off the entries. -/
theorem SameTables.loggedIn_iff {s' : Server} (h : SameTables s s') {u : Name} {device : UInt16}
    {c : ClientData} : s'.LoggedIn u device c ↔ s.LoggedIn u device c := by
  rw [LoggedIn, LoggedIn, h.entry]

/-- The files of a user who has one, `f`. -/
def oneFile : FileHost := .ofFiles Nat.cast ['d'] [(['f'], ⟨⟨[1], by decide⟩, 0⟩)] countPackets

end Server
end Bropdox
