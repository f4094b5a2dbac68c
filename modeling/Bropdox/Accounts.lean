import Bropdox.Daemon
import Bropdox.SessionTable
import Mathlib.Data.Fintype.Card

/-!
# Clients and the server

Any number of clients of any users make handshakes with one server, in any order.  The server has
its tables and every client its own `device` and `sock_handler_req`, with messages under way in
between; this file says that the two sides agree at every moment, if only there is a port for every
client.

## What is here

* `Accounts` is the clients, what each of them waits for (`Errand`), and the server.  One move is
  that a client sends a handshake, that the server handles one, that a client receives the answer,
  or that a client gives up its request socket because a session has failed.
* `Agreed` is the property: a client talks to the request handler that was made for it and for its
  user, nobody else talks to that one, a device is in use if and only if one client has it or is
  about to be told, and a handshake is confirmed exactly if it is a login or comes from a client
  with a device.
* `Handled` says what one handshake does to the tables, in the terms of `SessionTable.lean`.
* `Told` says of one client that what it has been told, or is about to be told, is right, and `Kept`
  is the invariant of all of them.  It carries along which device each client has been given, so
  that the clients that have yet to be told are accounted for.
* `Kept.step` has one lemma for each move (`send`, `handled`, `received`, `reset`).
* `accounts_agree`: while there are ports for all clients, the two sides agree after any number of
  moves.
* `crossedLogins_agree`: two users log in at the same time, and the second to ask is served first.

The server handles one handshake at a time here: the thread of one is through with the tables before
the next one begins.  Its threads overlap in the source, and what can come of that is in
`LoginThreads.lean`.
-/

set_option autoImplicit false

namespace Bropdox

open FileSystem
open Server (Session Visit refusal loggedIn loginsOf)

/-- How far a client is with a handshake. -/
inductive Errand
  | idle
  /-- The handshake has been sent. -/
  | asked (hand : Handshake)
  /-- The handshake has been handled, and this has been sent back. -/
  | answered (hand : Handshake) (syn : Option Syn)

/-- The clients and the server. -/
structure Accounts (ι : Type) where
  /-- The clients. -/
  client : ι → Daemon
  /-- What they wait for. -/
  errand : ι → Errand
  /-- The server. -/
  server : Server

namespace Accounts

/-- What can happen to the clients and the server. -/
inductive Move (ι : Type)
  | send (i : ι) (request : Req)
  | serve (i : ι) (env : Surroundings)
  | receive (i : ι) (connects : Bool)
  | reset (i : ι)

/-- A handshake is handled.  A session that never ends does not keep the server from others, but an
exception ends it. -/
def handle (v : Visit) (s : Server) : Option Server :=
  match v.treat.run s with
  | .ok _ s' => some s'
  | .error .blocked s' => some s'
  | .error (.escaped _) _ => none

/-- What a thread has sent to an address. -/
def answerTo (a : SockAddr) (s s' : Server) : Option Syn := (s'.sent.drop s.sent.length).lookup a

/-- A client as `Client::Client` makes it. -/
def newClient (userid : Name) : Daemon := ⟨{}, userid, 0, none, [], [], []⟩

section Moves

variable {ι : Type} [DecidableEq ι] (addr : ι → SockAddr)

/-- The state after a move, if it is possible.  A handshake is handled as a whole, that is, its
thread is through with the tables before the next one begins. -/
def step (w : Accounts ι) : Move ι → Option (Accounts ι)
  | .send i request =>
    match w.errand i with
    | .idle =>
      let hand : Handshake := ⟨request, (w.client i).userid, (w.client i).device, {}⟩
      some { w with errand := Function.update w.errand i (.asked hand) }
    | _ => none
  | .serve i env =>
    match w.errand i with
    | .asked hand =>
      (handle ⟨hand, addr i, env⟩ w.server).map fun server ↦ { w with
        errand := Function.update w.errand i (.answered hand (answerTo (addr i) w.server server))
        server }
    | _ => none
  | .receive i connects =>
    match w.errand i with
    | .answered hand syn =>
      match (w.client i).sendHandshake hand.reqType ⟨syn, connects⟩ with
      | .ok (_, d) => some { w with
          client := Function.update w.client i d
          errand := Function.update w.errand i .idle }
      | .error _ => none
    | _ => none
  | .reset i =>
    some { w with
      client := Function.update w.client i { w.client i with sockHandlerReq := none } }

/-- Nobody has done anything yet. -/
def start {ι : Type} (p : UInt32) (user : ι → Name) : Accounts ι :=
  ⟨fun i ↦ newClient (user i), fun _ ↦ .idle, Server.start p⟩

end Moves

/-- **The two sides agree.** -/
structure Agreed {ι : Type} (user : ι → Name) (addr : ι → SockAddr) (w : Accounts ι) : Prop where
  /-- A client that has a device is logged in on it, and the request handler is its own. -/
  device : ∀ i, (w.client i).device ≠ 0 → ∃ c, w.server.LoggedIn (user i) (w.client i).device c ∧
    c.handler = ⟨addr i, c.port, (w.client i).device, user i⟩
  /-- The request socket of a client is connected to the port of its request handler. -/
  socket : ∀ i q, (w.client i).sockHandlerReq = some q →
    ∃ c, w.server.LoggedIn (user i) (w.client i).device c ∧ c.port = q
  /-- No two clients of a user have the same device. -/
  apart : ∀ i j, user i = user j → (w.client i).device ≠ 0 →
    (w.client i).device = (w.client j).device → i = j
  /-- No two clients at all have the same request handler. -/
  ports : ∀ i j q, (w.client i).sockHandlerReq = some q → (w.client j).sockHandlerReq = some q →
    i = j
  /-- A device that is in use belongs to a client, unless that one has yet to be told. -/
  owner : ∀ u device c, w.server.LoggedIn u device c → ∃ i, user i = u ∧
    ((w.client i).device = device ∨
      ∃ hand, w.errand i = .answered hand (some ⟨true, c.port, device⟩))
  /-- A handshake is confirmed exactly if it is a login, or comes from a client with a device. -/
  confirmed : ∀ i hand syn, w.errand i = .answered hand syn → ∃ answer, syn = some answer ∧
    (answer.confirmation = true ↔ hand.reqType = .login ∨ (w.client i).device ≠ 0)

/-! ## What a handshake does

A handshake that is handled leaves the tables in order, or ends the process. -/

section Serving

variable {p : UInt32} {n : Nat} {log : List Server.Record} {s s' : Server} {v : Visit}

theorem leaves_of_handle (h : handle v s = some s') : Server.leaves v s = s' := by
  rw [handle] at h
  rw [Server.leaves]
  split at h
  · rename_i hrun
    rw [hrun]
    exact Option.some_inj.mp h
  · rename_i hrun
    rw [hrun]
    exact Option.some_inj.mp h
  · cases h

theorem answerTo_of_answers {syn : Syn} (h : s.Answers v [(v.clientAddr, syn)]) :
    answerTo v.clientAddr s (Server.leaves v s) = some syn := by
  rw [Server.Answers] at h
  rw [answerTo, h, List.drop_left]
  exact List.lookup_cons_self

/-- How a handshake is handled, and the tables are kept in order. -/
inductive Handled (p : UInt32) (n : Nat) (s : Server) (v : Visit) (s' : Server) : Prop
  /-- A login: a free slot and a port are taken. -/
  | login (k : Nat) (log : List Server.Record) (hsession : Session p (n + 1) log s')
      (hlogin : v.IsLogin) (hk : k < maxConcurrentDev)
      (hfree : ∀ c, ¬ s.InUse v.hand.userid k c)
      (huse : ∀ u i c, s'.InUse u i c ↔ if u = v.hand.userid ∧ i = k then
        c = loggedIn v.hand.userid v.clientAddr s.ports.reservePort.1 k else s.InUse u i c)
      (hanswer : answerTo v.clientAddr s s' =
        some ⟨true, s.ports.reservePort.1, .ofNat (k + 1)⟩)
  /-- Anything else: all slots are as before. -/
  | other (log : List Server.Record) (hsession : Session p n log s') (hlogin : ¬ v.IsLogin)
      (huse : ∀ u i c, s'.InUse u i c ↔ s.InUse u i c)
      (hrefused : v.hand.device = 0 → answerTo v.clientAddr s s' = some refusal)
      (hknown : ∀ c, s.LoggedIn v.hand.userid v.hand.device c →
        answerTo v.clientAddr s s' = some ⟨true, c.port, c.handler.device⟩)

/-- A login that does not end the process has found a device, and its request handler has been
constructed. -/
theorem admitted_of_handle (h : Session p n log s) (hlogin : v.IsLogin)
    (hs : handle v s = some s') : loginsOf v.hand.userid log < maxConcurrentDev ∧
      v.treat.run s = .ok () (s.welcome v (loginsOf v.hand.userid log)) := by
  have hfirst := (h.devices v.hand.userid).firstFree
  rw [Devices.length_slots] at hfirst
  split at hfirst
  · rename_i hk
    cases hcon : v.env.construct with
    | none => exact ⟨hk, Server.treat_admitted hlogin h.unlocked hfirst hcon⟩
    | some e =>
      rw [handle, Server.treat_unconstructed hlogin h.unlocked hfirst hcon] at hs
      cases hs
  · rw [handle, Server.treat_full hlogin h.unlocked hfirst] at hs
    cases hs

/-- While there is a port for a login, every handshake that is handled is handled so. -/
theorem handled_of_session (h : Session p n log s)
    (hport : v.IsLogin → n < s.ports.portMap.length) (hs : handle v s = some s') :
    Handled p n s v s' := by
  by_cases hlogin : v.IsLogin
  · obtain ⟨hk, hrun⟩ := admitted_of_handle h hlogin hs
    have hleaves := leaves_of_handle hs
    rw [Server.leaves_ok hrun] at hleaves
    have hans : s.Answers v [(v.clientAddr, ⟨true, s.ports.reservePort.1,
        .ofNat (loginsOf v.hand.userid log + 1)⟩)] := by
      rw [Server.Answers, Server.leaves_ok hrun]
      rfl
    have hanswer := answerTo_of_answers hans
    rw [leaves_of_handle hs] at hanswer
    refine .login _ _ (hleaves ▸ h.login hlogin (hport hlogin) hk rfl) hlogin hk (fun c hc ↦ ?_)
      (fun u i c ↦ ?_) hanswer
    · exact Nat.lt_irrefl _ ((h.devices _).lt_of_used hc.1 hc.2)
    · rw [← hleaves, Server.inUse_welcome hk]
  · obtain rfl := leaves_of_handle hs
    have hsame : Server.SameTables s (Server.leaves v s) := Server.sameTables_leaves hlogin
    have hnext : Session p n (log ++ [(v, [])]) (Server.leaves v s) := h.other hlogin hsame
    refine .other _ hnext hlogin (fun u i c ↦ by rw [Server.InUse, hsame.entry, Server.InUse])
      (fun hdevice ↦ answerTo_of_answers ?_) (fun c hc ↦ answerTo_of_answers ?_)
    · rw [Server.Answers, Server.leaves_ok
        (Server.treat_refused hdevice fun hreq ↦ hlogin ⟨hdevice, hreq⟩)]
      rfl
    · have hne : v.hand.device ≠ 0 := by
        intro h0
        rw [Server.LoggedIn, h0, Devices.at?_zero] at hc
        cases hc.1
      have hans := Server.answers_device hne hc.1
      rwa [if_pos hc.2] at hans

end Serving

/-! ## What a client has been told

The part of the invariant that is about one client: it has no device, or has been given one and does
not know yet, or it knows. -/

/-- What a client has been told, or is about to be told, is right.  The last argument is the device
that it has been given. -/
inductive Told (s : Server) (u : Name) (a : SockAddr) (d : Daemon) (e : Errand) :
    Option UInt16 → Prop
  /-- The client has no device. -/
  | stranger (hdevice : d.device = 0) (hsock : d.sockHandlerReq = none)
      (he : ∀ hand syn, e = .answered hand syn → syn = some refusal) : Told s u a d e none
  /-- The client has been given a device and does not know yet. -/
  | pending {device : UInt16} {c : ClientData} {hand : Handshake} (hdevice : d.device = 0)
      (hsock : d.sockHandlerReq = none) (hc : s.LoggedIn u device c)
      (hhandler : c.handler = ⟨a, c.port, device, u⟩)
      (he : e = .answered hand (some ⟨true, c.port, device⟩)) : Told s u a d e (some device)
  /-- The client knows its device. -/
  | known {c : ClientData} (hc : s.LoggedIn u d.device c)
      (hhandler : c.handler = ⟨a, c.port, d.device, u⟩)
      (hsock : ∀ q, d.sockHandlerReq = some q → q = c.port)
      (he : ∀ hand syn, e = .answered hand syn → syn = some ⟨true, c.port, d.device⟩) :
      Told s u a d e (some d.device)

/-- A handshake is about the client it comes from, and its answer is one. -/
def Sensible (u : Name) (d : Daemon) : Errand → Prop
  | .idle => True
  | .asked hand => hand.userid = u ∧ hand.device = d.device
  | .answered hand syn => ∃ answer, syn = some answer ∧
      (answer.confirmation = true ↔ hand.reqType = .login ∨ d.device ≠ 0)

section Telling

variable {s s' : Server} {u : Name} {a : SockAddr} {d d' : Daemon} {e e' : Errand}
  {g : Option UInt16} {device : UInt16} {hand : Handshake}

theorem ne_zero_of_loggedIn {c : ClientData} (h : s.LoggedIn u device c) : device ≠ 0 := by
  rintro rfl
  rw [Server.LoggedIn, Devices.at?_zero] at h
  cases h.1

theorem Told.loggedIn (h : Told s u a d e (some device)) : ∃ c, s.LoggedIn u device c := by
  cases h with
  | pending _ _ hc => exact ⟨_, hc⟩
  | known hc => exact ⟨_, hc⟩

/-- Who has been given a device has it, or will. -/
theorem Told.owner (h : Told s u a d e (some device)) {c : ClientData}
    (hc : s.LoggedIn u device c) : d.device = device ∨
      ∃ hand, e = .answered hand (some ⟨true, c.port, device⟩) := by
  cases h with
  | pending _ _ hc' _ he =>
    obtain rfl := Option.some_inj.mp (hc'.1.symm.trans hc.1)
    exact .inr ⟨_, he⟩
  | known _ => exact .inl rfl

/-- Who has a device has been given it. -/
theorem Told.of_device (h : Told s u a d e g) (hne : d.device ≠ 0) : g = some d.device ∧
    ∃ c, s.LoggedIn u d.device c ∧ c.handler = ⟨a, c.port, d.device, u⟩ ∧
      ∀ q, d.sockHandlerReq = some q → q = c.port := by
  cases h with
  | stranger hdevice => exact absurd hdevice hne
  | pending hdevice => exact absurd hdevice hne
  | known hc hhandler hsock => exact ⟨rfl, _, hc, hhandler, hsock⟩

/-- Who waits for the server without a device has not been given any. -/
theorem Told.of_zero (h : Told s u a d (.asked hand) g) (hzero : d.device = 0) :
    d.sockHandlerReq = none ∧ g = none := by
  cases h with
  | stranger _ hsock => exact ⟨hsock, rfl⟩
  | pending _ _ _ _ he => cases he
  | known hc => exact absurd hzero (ne_zero_of_loggedIn hc)

/-- Who has a request socket has a device. -/
theorem Told.device_of_socket (h : Told s u a d e g) {q : UInt32}
    (hq : d.sockHandlerReq = some q) : d.device ≠ 0 := by
  cases h with
  | stranger _ hsock =>
    rw [hsock] at hq
    cases hq
  | pending _ hsock =>
    rw [hsock] at hq
    cases hq
  | known hc => exact ne_zero_of_loggedIn hc

/-- What a client has been told stays right when others log in. -/
theorem Told.mono (h : Told s u a d e g)
    (hmono : ∀ device c, s.LoggedIn u device c → s'.LoggedIn u device c) :
    Told s' u a d e g := by
  cases h with
  | stranger hdevice hsock he => exact .stranger hdevice hsock he
  | pending hdevice hsock hc hhandler he =>
    exact .pending hdevice hsock (hmono _ _ hc) hhandler he
  | known hc hhandler hsock he => exact .known (hmono _ _ hc) hhandler hsock he

/-- What a client has been told stays right when it sends a handshake. -/
theorem Told.send (h : Told s u a d .idle g) : Told s u a d (.asked hand) g := by
  cases h with
  | stranger hdevice hsock _ => exact .stranger hdevice hsock nofun
  | pending _ _ _ _ he => cases he
  | known hc hhandler hsock _ => exact .known hc hhandler hsock nofun

/-- What a client has been told stays right when it gives up its request socket. -/
theorem Told.reset (h : Told s u a d e g) : Told s u a { d with sockHandlerReq := none } e g := by
  cases h with
  | stranger hdevice _ he => exact .stranger hdevice rfl he
  | pending hdevice _ hc hhandler he => exact .pending hdevice rfl hc hhandler he
  | known hc hhandler _ he =>
    exact .known (d := { d with sockHandlerReq := none }) hc hhandler nofun he

/-- What an answer does to a client. -/
theorem sendHandshake_state {request : Req} {syn : Syn} {connects b : Bool}
    (h : d.sendHandshake request ⟨some syn, connects⟩ = .ok (b, d')) :
    d'.userid = d.userid ∧ d'.device = syn.device ∧
      (d'.sockHandlerReq = d.sockHandlerReq ∨ d'.sockHandlerReq = some syn.port) := by
  simp only [Daemon.sendHandshake] at h
  split at h
  · cases h
    exact ⟨rfl, rfl, .inl rfl⟩
  split at h
  · cases h
    exact ⟨rfl, rfl, .inl rfl⟩
  split at h
  · cases h
    exact ⟨rfl, rfl, .inr rfl⟩
  · cases h
    exact ⟨rfl, rfl, .inl rfl⟩

/-- What a client has been told stays right when it receives an answer. -/
theorem Told.receive {syn : Option Syn} {request : Req} {connects b : Bool}
    (h : Told s u a d (.answered hand syn) g)
    (hd : d.sendHandshake request ⟨syn, connects⟩ = .ok (b, d')) : Told s u a d' .idle g := by
  cases h with
  | stranger hdevice hsock he =>
    obtain rfl := he _ _ rfl
    cases hd
    exact .stranger rfl hsock nofun
  | pending hdevice hsock hc hhandler he =>
    cases he
    obtain ⟨-, rfl, hsock'⟩ := sendHandshake_state hd
    refine .known hc hhandler (fun q hq ↦ ?_) nofun
    rw [hsock, hq] at hsock'
    cases hsock' with
    | inl hnone => cases hnone
    | inr hport => exact Option.some_inj.mp hport
  | known hc hhandler hsock he =>
    obtain rfl := he _ _ rfl
    obtain ⟨-, hdevice, hsock'⟩ := sendHandshake_state hd
    dsimp only at hdevice
    rw [← hdevice] at hc hhandler ⊢
    refine .known hc hhandler (fun q hq ↦ ?_) nofun
    rw [hq] at hsock'
    cases hsock' with
    | inl hsame => exact hsock q hsame.symm
    | inr hport => exact Option.some_inj.mp hport

/-- What a client has been told stays right when its handshake is answered. -/
theorem Told.answer {syn : Option Syn} (h : Told s u a d (.asked hand) g)
    (hrefused : d.device = 0 → syn = some refusal)
    (hknown : ∀ c, s.LoggedIn u d.device c → syn = some ⟨true, c.port, c.handler.device⟩) :
    Told s u a d (.answered hand syn) g := by
  cases h with
  | stranger hzero hsock _ =>
    rw [hrefused hzero]
    exact .stranger hzero hsock fun _ _ he ↦ (Errand.answered.inj he).2.symm
  | pending _ _ _ _ he => cases he
  | known hc hhandler hsock _ =>
    rw [hknown _ hc, hhandler]
    exact .known hc hhandler hsock fun _ _ he ↦ (Errand.answered.inj he).2.symm

end Telling

section Keeping

variable {ι : Type} [DecidableEq ι] [Fintype ι] {user : ι → Name} {addr : ι → SockAddr}
  {p : UInt32} {i : ι}

/-- The number of clients that have been given a device. -/
def holders {ι : Type} [Fintype ι] (given : ι → Option UInt16) : Nat :=
  (Finset.univ.filter fun i ↦ (given i).isSome).card

omit [DecidableEq ι] in
theorem holders_lt {given : ι → Option UInt16} (h : given i = none) :
    holders given < Fintype.card ι := by
  refine Finset.card_lt_card (Finset.filter_ssubset.mpr ⟨i, Finset.mem_univ i, ?_⟩)
  rw [h]
  decide

theorem holders_update {given : ι → Option UInt16} (h : given i = none) (device : UInt16) :
    holders (Function.update given i (some device)) = holders given + 1 := by
  have hinsert : (Finset.univ.filter fun j ↦ (Function.update given i (some device) j).isSome) =
      insert i (Finset.univ.filter fun j ↦ (given j).isSome) := by
    ext j
    by_cases hj : j = i <;> simp [hj]
  rw [holders, hinsert, Finset.card_insert_of_notMem (by simp [h]), holders]

/-- The invariant: `given` says which device each client has been given. -/
structure Kept (user : ι → Name) (addr : ι → SockAddr) (p : UInt32) (given : ι → Option UInt16)
    (w : Accounts ι) : Prop where
  /-- The tables of the server are in order, and so many ports are taken. -/
  session : ∃ log, Session p (holders given + 1) log w.server
  /-- Nobody changes its name. -/
  userid : ∀ i, (w.client i).userid = user i
  /-- What is under way is to the point. -/
  sensible : ∀ i, Sensible (user i) (w.client i) (w.errand i)
  /-- Everybody has been told the truth. -/
  told : ∀ i, Told w.server (user i) (addr i) (w.client i) (w.errand i) (given i)
  /-- No device has been given twice. -/
  unique : ∀ i j device, given i = some device → given j = some device → user i = user j → i = j
  /-- Every device in use has been given to somebody. -/
  owner : ∀ u device c, w.server.LoggedIn u device c → ∃ i, user i = u ∧ given i = some device

variable {given : ι → Option UInt16} {w w' : Accounts ι}

/-- A client does something. -/
theorem Kept.client (h : Kept user addr p given w) (i : ι) {d : Daemon} {e : Errand}
    (huserid : d.userid = user i) (hsensible : Sensible (user i) d e)
    (htold : Told w.server (user i) (addr i) d e (given i)) :
    Kept user addr p given { w with
      client := Function.update w.client i d
      errand := Function.update w.errand i e } where
  session := h.session
  userid j := by
    by_cases hj : j = i
    · subst hj
      simpa using huserid
    · simpa [hj] using h.userid j
  sensible j := by
    by_cases hj : j = i
    · subst hj
      simpa using hsensible
    · simpa [hj] using h.sensible j
  told j := by
    by_cases hj : j = i
    · subst hj
      simpa using htold
    · simpa [hj] using h.told j
  unique := h.unique
  owner := h.owner

/-- What has been given to nobody yet can be given to somebody. -/
theorem Kept.unique_update (h : Kept user addr p given w) {g : Option UInt16}
    (hnew : ∀ device, g = some device → given i = some device ∨
      ∀ c, ¬ w.server.LoggedIn (user i) device c) (j k : ι) (device : UInt16)
    (hj : Function.update given i g j = some device)
    (hk : Function.update given i g k = some device) (hu : user j = user k) : j = k := by
  have hother : ∀ j device, j ≠ i → given j = some device → g = some device →
      user i ≠ user j := by
    intro j device hj hgj hg hu
    rcases hnew device hg with hgi | hnot
    · exact hj (h.unique j i device hgj hgi hu.symm)
    · have htold := h.told j
      rw [hgj] at htold
      obtain ⟨c, hc⟩ := htold.loggedIn
      rw [← hu] at hc
      exact hnot c hc
  rw [Function.update_apply] at hj hk
  split at hj
  · rename_i hji
    split at hk
    · rename_i hki
      exact hji.trans hki.symm
    · rename_i hki
      exact absurd (hji ▸ hu) (hother k device hki hk hj)
  · rename_i hji
    split at hk
    · rename_i hki
      exact absurd (hki ▸ hu.symm) (hother j device hji hj hk)
    · exact h.unique j k device hj hk hu

/-- Who has been given something keeps it. -/
theorem Kept.owner_update (h : Kept user addr p given w) {g : Option UInt16}
    (hgiven : ∀ device, given i = some device → g = some device) {u : Name} {device : UInt16}
    {c : ClientData}
    (hc : w.server.LoggedIn u device c ∨ u = user i ∧ g = some device) :
    ∃ j, user j = u ∧ Function.update given i g j = some device := by
  rcases hc with hold | ⟨rfl, hg⟩
  · obtain ⟨j, rfl, hj⟩ := h.owner u device c hold
    refine ⟨j, rfl, ?_⟩
    rw [Function.update_apply]
    split
    · rename_i hji
      exact hgiven device (hji ▸ hj)
    · exact hj
  · exact ⟨i, rfl, by rw [Function.update_self, hg]⟩

/-- The server answers somebody, who may be given a device by it. -/
theorem Kept.serve (h : Kept user addr p given w) (i : ι) {s' : Server} {e : Errand}
    {g : Option UInt16}
    (hsession : ∃ log, Session p (holders (Function.update given i g) + 1) log s')
    (hmono : ∀ u device c, w.server.LoggedIn u device c → s'.LoggedIn u device c)
    (hsensible : Sensible (user i) (w.client i) e)
    (htold : Told s' (user i) (addr i) (w.client i) e g)
    (hgiven : ∀ device, given i = some device → g = some device)
    (hnew : ∀ device, g = some device → given i = some device ∨
      ∀ c, ¬ w.server.LoggedIn (user i) device c)
    (howner : ∀ u device c, s'.LoggedIn u device c →
      w.server.LoggedIn u device c ∨ u = user i ∧ g = some device) :
    Kept user addr p (Function.update given i g) { w with
      errand := Function.update w.errand i e
      server := s' } where
  session := hsession
  userid := h.userid
  sensible j := by
    by_cases hj : j = i
    · subst hj
      simpa using hsensible
    · simpa [hj] using h.sensible j
  told j := by
    by_cases hj : j = i
    · subst hj
      simpa using htold
    · simpa [hj] using (h.told j).mono (hmono _)
  unique := h.unique_update hnew
  owner u device c hc := h.owner_update hgiven (howner u device c hc)

omit [DecidableEq ι] in
/-- What has been asked for is to the point. -/
theorem Kept.asked (h : Kept user addr p given w) {hand : Handshake}
    (hasked : w.errand i = .asked hand) :
    hand.userid = user i ∧ hand.device = (w.client i).device := by
  have hsensible := h.sensible i
  rwa [hasked] at hsensible

omit [DecidableEq ι] in
/-- Who asks for a device has not been given any. -/
theorem Kept.given_of_login (h : Kept user addr p given w) {hand : Handshake}
    (hasked : w.errand i = .asked hand) (hzero : hand.device = 0) :
    (w.client i).sockHandlerReq = none ∧ given i = none := by
  have htold := h.told i
  rw [hasked] at htold
  exact htold.of_zero ((h.asked hasked).2.symm.trans hzero)

/-- A login is answered. -/
theorem Kept.login (h : Kept user addr p given w) {hand : Handshake} {env : Surroundings}
    (hasked : w.errand i = .asked hand) {s' : Server} {log : List Server.Record}
    (hsession : Session p (holders given + 1 + 1) log s') {k : Nat}
    (hlogin : Visit.IsLogin ⟨hand, addr i, env⟩) (hk : k < maxConcurrentDev)
    (hfree : ∀ c, ¬ w.server.InUse hand.userid k c)
    (huse : ∀ u j c, s'.InUse u j c ↔ if u = hand.userid ∧ j = k then
      c = loggedIn hand.userid (addr i) w.server.ports.reservePort.1 k else w.server.InUse u j c)
    (hanswer : answerTo (addr i) w.server s' =
      some ⟨true, w.server.ports.reservePort.1, .ofNat (k + 1)⟩) :
    Kept user addr p (Function.update given i (some (.ofNat (k + 1)))) { w with
      errand := Function.update w.errand i (.answered hand (answerTo (addr i) w.server s'))
      server := s' } := by
  obtain ⟨hu, hdevice⟩ := h.asked hasked
  obtain ⟨hsock, hg⟩ := h.given_of_login hasked hlogin.1
  rw [hu] at hfree huse
  -- the slot is new, and nobody has been given it
  have hvacant : ∀ c, ¬ w.server.LoggedIn (user i) (.ofNat (k + 1)) c := by
    intro c hc
    obtain ⟨j, hj, hc⟩ := Server.loggedIn_iff.mp hc
    obtain rfl := Devices.device_inj hk (Devices.lt_of_getElem? hc.1) hj
    exact hfree c hc
  have hin := Server.loggedIn_of_inUse hk huse
  rw [← holders_update hg (.ofNat (k + 1))] at hsession
  refine h.serve i ⟨_, hsession⟩ (fun u device c hc ↦ ?_) ?_ ?_ (fun device hgi ↦ ?_)
    (fun device hgi ↦ ?_) (fun u device c hc ↦ ?_)
  · rw [hin, if_neg]
    · exact hc
    · rintro ⟨rfl, rfl⟩
      exact hvacant c hc
  · exact ⟨_, hanswer, iff_of_true rfl (.inl hlogin.2)⟩
  · rw [hanswer]
    exact .pending (hdevice.symm.trans hlogin.1) hsock
      ((hin ..).mpr (by rw [if_pos ⟨rfl, rfl⟩])) rfl rfl
  · rw [hg] at hgi
    cases hgi
  · cases hgi
    exact .inr hvacant
  · rw [hin] at hc
    split at hc
    · rename_i hcase
      exact .inr ⟨hcase.1, congrArg some hcase.2.symm⟩
    · exact .inl hc

/-- A handshake that is not a login is answered. -/
theorem Kept.other (h : Kept user addr p given w) {hand : Handshake} {env : Surroundings}
    (hasked : w.errand i = .asked hand) {s' : Server} {log : List Server.Record}
    (hsession : Session p (holders given + 1) log s') (hlogin : ¬ Visit.IsLogin ⟨hand, addr i, env⟩)
    (huse : ∀ u j c, s'.InUse u j c ↔ w.server.InUse u j c)
    (hrefused : hand.device = 0 → answerTo (addr i) w.server s' = some refusal)
    (hknown : ∀ c, w.server.LoggedIn hand.userid hand.device c →
      answerTo (addr i) w.server s' = some ⟨true, c.port, c.handler.device⟩) :
    Kept user addr p (Function.update given i (given i)) { w with
      errand := Function.update w.errand i (.answered hand (answerTo (addr i) w.server s'))
      server := s' } := by
  obtain ⟨hu, hdevice⟩ := h.asked hasked
  have htold := h.told i
  rw [hasked] at htold
  have hsame : ∀ u device c, s'.LoggedIn u device c ↔ w.server.LoggedIn u device c := by
    intro u device c
    simp only [Server.loggedIn_iff, huse]
  rw [hu, hdevice] at hknown
  rw [hdevice] at hrefused
  have hanswered : Told w.server (user i) (addr i) (w.client i)
      (.answered hand (answerTo (addr i) w.server s')) (given i) := htold.answer hrefused hknown
  refine h.serve i ⟨_, by rwa [Function.update_eq_self]⟩
    (fun u device c ↦ (hsame u device c).mpr) ?_
    (hanswered.mono fun device c ↦ (hsame _ device c).mpr) (fun device hgi ↦ hgi)
    (fun device hgi ↦ .inl hgi) (fun u device c hc ↦ .inl ((hsame u device c).mp hc))
  by_cases hzero : (w.client i).device = 0
  · refine ⟨_, hrefused hzero, iff_of_false (by decide) ?_⟩
    rintro (hreq | hne)
    · exact hlogin ⟨hdevice.trans hzero, hreq⟩
    · exact hne hzero
  · obtain ⟨-, c, hc, -⟩ := htold.of_device hzero
    exact ⟨_, hknown c hc, iff_of_true rfl (.inr hzero)⟩

/-- A handshake is sent. -/
theorem Kept.send (h : Kept user addr p given w) (hidle : w.errand i = .idle) (request : Req) :
    Kept user addr p given { w with
      errand := Function.update w.errand i
        (.asked ⟨request, (w.client i).userid, (w.client i).device, {}⟩) } := by
  have hclient := h.client i (h.userid i)
    (e := .asked ⟨request, (w.client i).userid, (w.client i).device, {}⟩) ⟨h.userid i, rfl⟩
    (hidle ▸ h.told i).send
  rwa [Function.update_eq_self] at hclient

/-- A handshake is handled. -/
theorem Kept.handled (h : Kept user addr p given w) (hroom : p.toNat + Fintype.card ι < 65535)
    {hand : Handshake} (hasked : w.errand i = .asked hand) {env : Surroundings} {s' : Server}
    (hs : handle ⟨hand, addr i, env⟩ w.server = some s') :
    ∃ given, Kept user addr p given { w with
      errand := Function.update w.errand i (.answered hand (answerTo (addr i) w.server s'))
      server := s' } := by
  obtain ⟨log, hsession⟩ := h.session
  have hport : Visit.IsLogin ⟨hand, addr i, env⟩ →
      holders given + 1 < w.server.ports.portMap.length := by
    intro hlogin
    have hlt := holders_lt (h.given_of_login hasked hlogin.1).2
    rw [hsession.length]
    omega
  cases handled_of_session hsession hport hs with
  | login k log' hsession' hlogin hk hfree huse hanswer =>
    exact ⟨_, h.login hasked hsession' hlogin hk hfree huse hanswer⟩
  | other log' hsession' hlogin huse hrefused hknown =>
    exact ⟨_, h.other hasked hsession' hlogin huse hrefused hknown⟩

/-- An answer is received. -/
theorem Kept.received (h : Kept user addr p given w) {hand : Handshake} {syn : Option Syn}
    (hanswered : w.errand i = .answered hand syn) {connects b : Bool} {d : Daemon}
    (hd : (w.client i).sendHandshake hand.reqType ⟨syn, connects⟩ = .ok (b, d)) :
    Kept user addr p given { w with
      client := Function.update w.client i d
      errand := Function.update w.errand i .idle } := by
  have htold := h.told i
  rw [hanswered] at htold
  obtain ⟨answer, rfl, -⟩ : Sensible (user i) (w.client i) (.answered hand syn) :=
    hanswered ▸ h.sensible i
  exact h.client i ((sendHandshake_state hd).1.trans (h.userid i)) trivial (htold.receive hd)

/-- A request socket is given up. -/
theorem Kept.reset (h : Kept user addr p given w) (i : ι) :
    Kept user addr p given { w with
      client := Function.update w.client i { w.client i with sockHandlerReq := none } } := by
  have hclient := h.client i (d := { w.client i with sockHandlerReq := none }) (h.userid i)
    (e := w.errand i) ?_ (h.told i).reset
  · rwa [Function.update_eq_self] at hclient
  · have hsensible := h.sensible i
    cases he : w.errand i <;> rw [he] at hsensible <;> exact hsensible

/-- Every move keeps the invariant. -/
theorem Kept.step (hroom : p.toNat + Fintype.card ι < 65535) (h : Kept user addr p given w)
    {m : Move ι} (hs : step addr w m = some w') :
    ∃ given, Kept user addr p given w' := by
  cases m with
  | send i request =>
    simp only [Accounts.step] at hs
    split at hs
    · rename_i hidle
      cases hs
      exact ⟨given, h.send hidle request⟩
    · cases hs
  | serve i env =>
    simp only [Accounts.step] at hs
    split at hs
    · rename_i hand hasked
      obtain ⟨s', hs', rfl⟩ := Option.map_eq_some_iff.mp hs
      exact h.handled hroom hasked hs'
    · cases hs
  | receive i connects =>
    simp only [Accounts.step] at hs
    split at hs
    · rename_i hand syn hanswered
      split at hs
      · rename_i b d hd
        cases hs
        exact ⟨given, h.received hanswered hd⟩
      · cases hs
    · cases hs
  | reset i =>
    cases hs
    exact ⟨given, h.reset i⟩

omit [DecidableEq ι] in
theorem kept_start (hp : p.toNat + 1 ≤ 65535) :
    Kept user addr p (fun _ ↦ none) (start p user) where
  session := by
    have hnobody : holders (fun _ : ι ↦ (none : Option UInt16)) = 0 := by simp [holders]
    exact ⟨[], hnobody ▸ Server.session_start hp⟩
  userid _ := rfl
  sensible _ := trivial
  told _ := .stranger rfl rfl nofun
  unique _ _ _ hi := by cases hi
  owner u device c hc := by
    obtain ⟨i, -, hslot⟩ := Server.loggedIn_iff.mp hc
    have hused := List.eq_of_mem_replicate (List.mem_of_getElem? hslot.1)
    rw [hused] at hslot
    cases hslot.2

omit [DecidableEq ι] in
/-- While the invariant is kept the two sides agree. -/
theorem Kept.agreed (h : Kept user addr p given w) : w.Agreed user addr where
  device i hne := by
    obtain ⟨-, c, hc, hhandler, -⟩ := (h.told i).of_device hne
    exact ⟨c, hc, hhandler⟩
  socket i q hq := by
    obtain ⟨-, c, hc, -, hsock⟩ := (h.told i).of_device ((h.told i).device_of_socket hq)
    exact ⟨c, hc, (hsock q hq).symm⟩
  apart i j hu hne heq := by
    obtain ⟨hi, -⟩ := (h.told i).of_device hne
    obtain ⟨hj, -⟩ := (h.told j).of_device (heq ▸ hne)
    exact h.unique i j _ hi (heq ▸ hj) hu
  ports i j q hi hj := by
    obtain ⟨log, hsession⟩ := h.session
    obtain ⟨hgi, c, hc, -, hsock⟩ := (h.told i).of_device ((h.told i).device_of_socket hi)
    obtain ⟨hgj, c', hc', -, hsock'⟩ := (h.told j).of_device ((h.told j).device_of_socket hj)
    obtain ⟨k, hk, hslot⟩ := Server.loggedIn_iff.mp hc
    obtain ⟨k', hk', hslot'⟩ := Server.loggedIn_iff.mp hc'
    -- a port is enough to tell whose it is
    obtain ⟨hu, rfl⟩ := hsession.distinct _ _ _ _ _ _ hslot hslot'
      ((hsock q hi).symm.trans (hsock' q hj))
    rw [hk] at hgi
    rw [hk'] at hgj
    exact h.unique i j _ hgi hgj hu
  owner u device c hc := by
    obtain ⟨i, rfl, hi⟩ := h.owner u device c hc
    exact ⟨i, rfl, (hi ▸ h.told i).owner hc⟩
  confirmed i hand syn he := by
    have hsensible := h.sensible i
    rwa [he] at hsensible

end Keeping

/-- **While there are ports for all clients, the two sides agree after any number of moves**, if
the server handles one handshake at a time. -/
theorem accounts_agree {ι : Type} [DecidableEq ι] [Fintype ι] {p : UInt32}
    (hroom : p.toNat + Fintype.card ι < 65535) (user : ι → Name) (addr : ι → SockAddr)
    (ms : List (Move ι)) :
    Runs.Always (step addr) (Agreed user addr) ms (start p user) :=
  Runs.always_of_step (I := fun w ↦ ∃ given, Kept user addr p given w)
    (fun _ ⟨_, h⟩ ↦ h.agreed) (fun _ _ _ ⟨_, h⟩ hs ↦ h.step hroom hs) ms
    ⟨_, kept_start (by omega)⟩

/-- Two users log in at the same time, and the second to ask is served first. -/
def crossedLogins : List (Move Bool) :=
  [.send false .login, .send true .login, .serve true {}, .serve false {}, .receive false true,
    .receive true true]

/-- Two users whose logins cross end on device 1 each, with a port of their own, and everything
agrees. -/
theorem crossedLogins_agree :
    ∃ w : Accounts Bool,
      Runs.after (step fun b ↦ ⟨if b then 1 else 2, 7⟩) crossedLogins
        (start 65530 fun b ↦ if b then ['a'] else ['b']) = some w ∧
      (fun b ↦ ((w.client b).device, (w.client b).sockHandlerReq)) =
        (fun b ↦ (1, some (if b then 65532 else 65533))) ∧
      w.Agreed (fun b ↦ if b then ['a'] else ['b']) (fun b ↦ ⟨if b then 1 else 2, 7⟩) := by
  have hagreed := accounts_agree (p := 65530) (by decide) (fun b ↦ if b then ['a'] else ['b'])
    (fun b ↦ ⟨if b then 1 else 2, 7⟩) crossedLogins
  have hrun : (Runs.after (step fun b ↦ ⟨if b then 1 else 2, 7⟩) crossedLogins
      (start 65530 fun b ↦ if b then ['a'] else ['b'])).map
        (fun w b ↦ ((w.client b).device, (w.client b).sockHandlerReq)) =
      some (fun b ↦ (1, some (if b then 65532 else 65533))) :=
    congrArg some (funext fun b ↦ by cases b <;> rfl)
  obtain ⟨w, hw, hview⟩ := Option.map_eq_some_iff.mp hrun
  exact ⟨w, hw, hview, hagreed.after hw⟩

end Accounts
end Bropdox
