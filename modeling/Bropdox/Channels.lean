import Bropdox.Routing

/-!
# The network and the town

`Tenants.lean` runs the users of a server in a *town*, where each session has two channels of its
own and a command is given and begun in one move.  `Network.lean` has neither: there are sockets
with addresses, a command begins with a handshake that a front end sends to the server's one socket,
and a thread picks the request handler.  This file shows that the two are the same thing seen from
two distances, so that what is proved in the town is true on the network.

## What is here

* `Net.visitAt` reads a session off the network: the two programs, and the two queues that have
  become channels.  `Net.Shows` says that a user looks so in the town and `Net.Looks` that all do.
* `Looks.step`: each move of the network is one move of the town or none.  A handshake that is sent,
  forwarded or answered cannot be seen from the town; only the call of the request handler can, and
  that is the beginning of a session there.
* `Looks.follow`: each move of the town is some moves of the network.  The beginning of a session
  has to be made up from four of them, in the order in which the source makes them (`exists_ask`,
  `exists_enter`, `exists_connect`), which is why the network is followed only between moves at
  which no client waits for an answer (`Net.Met`).
* `Net.Rests.refines` and `Net.Rests.realizes` are the same for runs, from a network on which nobody
  is in the middle of anything, and `network_refines` puts the two together.
* `twoDesksNet_refines` is a run in which two users are in the middle of their uploads at once.

The simulation needs to know who can have sent what is on a socket.  That is `Net.Sorted`, which
`Routing.lean` carries through every move, and it is used here and never unfolded further than to
the line of one device.
-/

set_option autoImplicit false

namespace Bropdox

open FileSystem Session Program SocketHandler Peers

namespace Net

variable {υ ι : Type}

/-! ## What a session looks like

A session can be seen from the town from the moment at which its request handler has been called.
Until the client has read the answer and connected, it is shown with the client at the beginning of
its program and an empty channel. -/

/-- The session of a device whose request handler has been called. -/
def visitAt (n : Net υ ι) (u : υ) (i : ι) (call : Call) (r : RequestHandler.Prog Bool) :
    Visit ι where
  device := i
  deed := call.deed
  left := call.talks.getD ⟨(n.home u).client i, call.deed.program⟩
  right := r
  toLeft :=
    if call.talks.isSome then (n.sock (.client u i)).inbox
    else some ((n.sock (.client u i)).inbox.getD [])
  toRight := (n.sock (.handler u i)).inbox

/-- The user in a town with channels. -/
structure Shows (n : Net υ ι) (u : υ) (a : Tenant ι) : Prop where
  /-- The clients are the same. -/
  client : a.client = (n.home u).client
  /-- Devices that are not in a session have the same sockets. -/
  socket : ∀ i, (n.home u).thread i = none → a.socket i = (n.sock (.client u i)).inbox
  /-- The request handlers of such devices have the same sockets. -/
  inbox : ∀ i, (n.home u).thread i = none → a.inbox i = (n.sock (.handler u i)).inbox
  /-- Between two sessions there is none. -/
  rests : (∀ i, (n.home u).thread i = none) → a.visit = none
  /-- The session in progress is the same. -/
  visit : ∀ i call r, (n.home u).call i = some call → (n.home u).thread i = some r →
    a.visit = some (n.visitAt u i call r)

/-- All users, and the machine of the server, in a town with channels. -/
structure Looks (n : Net υ ι) (W : Town υ ι) : Prop where
  /-- The machine is the same. -/
  store : W.store = n.store
  /-- Each user is the same. -/
  shows : ∀ u, n.Shows u (W.own u)

/-- A user that has not been touched looks the same. -/
theorem Shows.congr {n n' : Net υ ι} {u : υ} {a : Tenant ι} (h : n.Shows u a)
    (hhome : n'.home u = n.home u)
    (hclient : ∀ i, (n'.sock (.client u i)).inbox = (n.sock (.client u i)).inbox)
    (hhandler : ∀ i, (n'.sock (.handler u i)).inbox = (n.sock (.handler u i)).inbox) :
    n'.Shows u a where
  client := by rw [hhome, h.client]
  socket i := by
    rw [hhome, hclient]
    exact h.socket i
  inbox i := by
    rw [hhome, hhandler]
    exact h.inbox i
  rests := by
    rw [hhome]
    exact h.rests
  visit i call r := by
    rw [hhome, visitAt, hhome, hclient, hhandler]
    exact h.visit i call r

section Shows

variable [DecidableEq υ] [DecidableEq ι] {reg : Register υ ι} {n n' : Net υ ι} {u : υ} {i : ι}
  {a : Tenant ι}

omit [DecidableEq υ] [DecidableEq ι] in
/-- A thread is in a request handler only in a session. -/
theorem Sorted.call_of_thread (h : n.Sorted reg) {r : RequestHandler.Prog Bool}
    (hthread : (n.home u).thread i = some r) : ∃ call, (n.home u).call i = some call := by
  cases h.line u i with
  | idle _ hthread' => cases hthread.symm.trans hthread'
  | asked ha => cases hthread.symm.trans ha.thread
  | answered hcall => exact ⟨_, hcall⟩
  | talking hcall => exact ⟨_, hcall⟩

omit [DecidableEq υ] [DecidableEq ι] in
/-- While a device waits for an answer there is no session. -/
theorem Shows.visit_eq_none (ha : n.Shows u a) (h : n.Sorted reg)
    (hcall : (n.home u).call i ≠ none) (hthread : (n.home u).thread i = none) :
    a.visit = none := by
  refine ha.rests fun j ↦ ?_
  cases hj : (n.home u).thread j with
  | none => rfl
  | some r =>
    obtain ⟨call, hcall'⟩ := h.call_of_thread hj
    obtain rfl := h.one u i j hcall (by simp [hcall'])
    exact hj.symm.trans hthread

omit [DecidableEq υ] [DecidableEq ι] in
/-- A session is that of a device that is in the middle of a command. -/
theorem Shows.call_of_visit (ha : n.Shows u a) (h : n.Sorted reg) {x : Visit ι}
    (hx : a.visit = some x) : (n.home u).call x.device ≠ none := by
  by_cases hrests : ∀ i, (n.home u).thread i = none
  · rw [ha.rests hrests] at hx
    cases hx
  · obtain ⟨j, hj⟩ := not_forall.mp hrests
    obtain ⟨r, hr⟩ := Option.ne_none_iff_exists'.mp hj
    obtain ⟨call, hcall⟩ := h.call_of_thread hr
    obtain rfl := Option.some_inj.mp (hx.symm.trans (ha.visit j call r hcall hr))
    exact fun hnone ↦ by cases hcall.symm.trans hnone

theorem Shows.edit (ha : n.Shows u a) (hcall : (n.home u).call i = none) (m : Machine) :
    (n.setHome u ((n.home u).edit i m)).Shows u (a.edit i m) := by
  have hhome : (n.setHome u ((n.home u).edit i m)).home u = (n.home u).edit i m :=
    Function.update_self ..
  refine ⟨?_, ?_, ?_, ?_, fun j call r hj hr ↦ ?_⟩
  · rw [hhome, Tenant.edit, ha.client]
    rfl
  · rw [hhome]
    exact ha.socket
  · rw [hhome]
    exact ha.inbox
  · rw [hhome]
    exact ha.rests
  · rw [hhome] at hj hr
    have hne : j ≠ i := fun he ↦ by cases (he ▸ hj).symm.trans hcall
    rw [Tenant.edit, ha.visit j call r hj hr, visitAt, visitAt, hhome]
    simp [Home.edit, hne]

theorem Shows.ask (ha : n.Shows u a) (h : n.Sorted reg) (hidle : ∀ j, (n.home u).call j = none)
    {call : Option Call} {sock : Sockets (Seat υ ι) SockAddr sessionWire}
    (hclient : ∀ j, sock (.client u j) = n.sock (.client u j))
    (hhandler : ∀ j, sock (.handler u j) = n.sock (.handler u j)) :
    ((n.setHome u ((n.home u).setCall i call)).setSock sock).Shows u a := by
  have hhome : ((n.setHome u ((n.home u).setCall i call)).setSock sock).home u =
      (n.home u).setCall i call := Function.update_self ..
  have hrests (j : ι) : (n.home u).thread j = none := by
    cases hj : (n.home u).thread j with
    | none => rfl
    | some r =>
      obtain ⟨call', hcall⟩ := h.call_of_thread hj
      cases hcall.symm.trans (hidle j)
  refine ⟨?_, fun j hj ↦ ?_, fun j hj ↦ ?_, fun _ ↦ ha.rests hrests, fun j call' r _ hr ↦ ?_⟩
  · rw [hhome]
    exact ha.client
  · rw [setSock_sock, hclient]
    exact ha.socket j (hrests j)
  · rw [setSock_sock, hhandler]
    exact ha.inbox j (hrests j)
  · rw [hhome] at hr
    cases hr.symm.trans (hrests j)

omit [DecidableEq υ] [DecidableEq ι] in
/-- While a device is in the middle of a command the others are not. -/
theorem Sorted.thread_eq_none (h : n.Sorted reg) (hcall : (n.home u).call i ≠ none) {j : ι}
    (hj : j ≠ i) : (n.home u).thread j = none := by
  cases hr : (n.home u).thread j with
  | none => rfl
  | some r =>
    obtain ⟨call, hcall'⟩ := h.call_of_thread hr
    exact absurd (h.one u j i (by simp [hcall']) hcall) hj

omit [DecidableEq υ] [DecidableEq ι] in
/-- A device is in a session now. -/
theorem Shows.go (ha : n.Shows u a) (h : n.Sorted reg) (hbusy : (n.home u).call i ≠ none)
    {b : Home ι} {call : Call} {r : RequestHandler.Prog Bool} {x : Visit ι}
    (hhome : n'.home u = b) (hfiles : b.client = (n.home u).client) (hcall : b.call i = some call)
    (hthread : b.thread i = some r) (hthreads : ∀ j, j ≠ i → b.thread j = (n.home u).thread j)
    (hclient : ∀ j, j ≠ i → n'.sock (.client u j) = n.sock (.client u j))
    (hhandler : ∀ j, j ≠ i → n'.sock (.handler u j) = n.sock (.handler u j))
    (hx : n'.visitAt u i call r = x) : n'.Shows u { a with visit := some x } := by
  subst hhome
  have hne {j : ι} (hj : (n'.home u).thread j = none) : j ≠ i := fun he ↦ by
    cases (he ▸ hj).symm.trans hthread
  refine ⟨ha.client.trans hfiles.symm, fun j hj ↦ ?_, fun j hj ↦ ?_, fun hnone ↦ ?_,
    fun j call' r' hj hr ↦ ?_⟩
  · rw [hclient j (hne hj)]
    exact ha.socket j (h.thread_eq_none hbusy (hne hj))
  · rw [hhandler j (hne hj)]
    exact ha.inbox j (h.thread_eq_none hbusy (hne hj))
  · cases (hnone i).symm.trans hthread
  · by_cases hji : j = i
    · subst hji
      cases hj.symm.trans hcall
      cases hr.symm.trans hthread
      exact congrArg some hx.symm
    · rw [hthreads j hji, h.thread_eq_none hbusy hji] at hr
      cases hr

/-- When both sides of a session are done, the user is left without one. -/
theorem Shows.leave (ha : n.Shows u a) (h : n.Sorted reg) {deed : Deed} {c : Client.Host}
    {p : Client.Prog Bool} {r : RequestHandler.Prog Bool}
    (hcall : (n.home u).call i = some ⟨deed, some ⟨c, p⟩⟩)
    (hthread : (n.home u).thread i = some r) :
    (n.setHome u ((((n.home u).setClient i c).setCall i none).setThread i none)).Shows u
      (a.leave (n.visitAt u i ⟨deed, some ⟨c, p⟩⟩ r)) := by
  have hhome : (n.setHome u ((((n.home u).setClient i c).setCall i none).setThread i none)).home u
      = (((n.home u).setClient i c).setCall i none).setThread i none := Function.update_self ..
  have hnone (j : ι) :
      ((((n.home u).setClient i c).setCall i none).setThread i none).thread j = none := by
    by_cases hj : j = i
    · subst hj
      exact Function.update_self ..
    · exact (Function.update_of_ne hj ..).trans (h.thread_eq_none (by simp [hcall]) hj)
  refine ⟨?_, fun j _ ↦ ?_, fun j _ ↦ ?_, fun _ ↦ rfl, fun j call r' _ hr ↦ ?_⟩
  · rw [hhome, Tenant.leave, ha.client]
    rfl
  · by_cases hj : j = i
    · subst hj
      exact Function.update_self ..
    · exact (Function.update_of_ne hj ..).trans
        (ha.socket j (h.thread_eq_none (by simp [hcall]) hj))
  · by_cases hj : j = i
    · subst hj
      exact Function.update_self ..
    · exact (Function.update_of_ne hj ..).trans
        (ha.inbox j (h.thread_eq_none (by simp [hcall]) hj))
  · rw [hhome] at hr
    cases (hnone j).symm.trans hr

omit [DecidableEq υ] in
/-- The request handler of a device that has asked is called. -/
theorem Shows.enter (ha : n.Shows u a) (h : n.Sorted reg) {deed : Deed}
    (hask : n.Asking reg u i deed)
    (hhome : n'.home u = (n.home u).setThread i (some (RequestHandler.handleRequest deed.req)))
    (hclient : ∀ j, n'.sock (.client u j) = n.sock (.client u j))
    (hhandler : ∀ j, n'.sock (.handler u j) = n.sock (.handler u j)) :
    n'.Shows u (a.enter i deed) := by
  refine ha.go h (by simp [hask.call]) hhome rfl hask.call (Function.update_self ..)
    (fun j hj ↦ Function.update_of_ne hj ..) (fun j _ ↦ hclient j) (fun j _ ↦ hhandler j) ?_
  rw [visitAt, hclient, hhandler, hhome, ha.client, ha.socket i hask.thread,
    ha.inbox i hask.thread]
  rfl

omit [DecidableEq υ] in
/-- A client has got its answer. -/
theorem Shows.connect (ha : n.Shows u a) (h : n.Sorted reg) {deed : Deed} {syn : Syn}
    {b : SockAddr} {rest : List (SockAddr × Datagram sessionWire)}
    {s : Socket SockAddr sessionWire} (hcall : (n.home u).call i = some ⟨deed, none⟩)
    (hunread : (n.sock (.frontEnd u i)).unread = some ((b, ⟨.syn, syn⟩) :: rest))
    (hs : n.Connects reg u i syn s)
    (hhome : n'.home u = ((n.home u).setDevice i syn.device).setCall i
      (some ⟨deed, some ⟨(n.home u).client i, deed.program⟩⟩))
    (hself : n'.sock (.client u i) = s)
    (hclient : ∀ j, j ≠ i → n'.sock (.client u j) = n.sock (.client u j))
    (hhandler : ∀ j, n'.sock (.handler u j) = n.sock (.handler u j)) : n'.Shows u a := by
  obtain ⟨rfl, -, -, -, -, -, hempty, -, r, hthread, -⟩ := h.answered hcall hunread
  have hinbox : s.inbox = some ((n.sock (.client u i)).inbox.getD []) := by
    cases hs with
    | kept hopen =>
      obtain ⟨q, hq⟩ := Option.ne_none_iff_exists'.mp hopen
      obtain rfl := hempty q hq
      simp [Socket.inbox, hq]
    | opened hclosed => simp [Socket.inbox, hclosed]
  have hvisit : a.visit = some (n'.visitAt u i
      ⟨deed, some ⟨(n.home u).client i, deed.program⟩⟩ r) := by
    rw [ha.visit i _ r hcall hthread, visitAt, visitAt, hself, hhandler]
    simp [hinbox]
  have hgo := ha.go h (by simp [hcall]) hhome rfl (Function.update_self ..) hthread (fun j _ ↦ rfl)
    hclient (fun j _ ↦ hhandler j) rfl
  rwa [← hvisit] at hgo

end Shows

/-! ## What a move looks like

A move of the network concerns one user, so the town changes at that user alone (`Looks.update`), by
a move of its client (`Looks.left`), by a move of the request handler (`Looks.right`) or not at all
(`Looks.keep`). -/

section Looks

variable [DecidableEq υ] [DecidableEq ι] {reg : Register υ ι} {W : Town υ ι} {n n' : Net υ ι}
  {u : υ} {i : ι} {deed : Deed} {s : Socket SockAddr sessionWire}
  {out : List (Letter SockAddr sessionWire)}

omit [DecidableEq ι] in
/-- Something has happened to one user. -/
theorem Looks.update (h : n.Looks W) {a : Tenant ι} {m : Machine} {b : Home ι}
    (hstore : m = n'.store) (hself : n'.Shows u a) (hhome : n'.home = Function.update n.home u b)
    (hsock : ∀ v, v ≠ u → ∀ i, n'.sock (.client v i) = n.sock (.client v i) ∧
      n'.sock (.handler v i) = n.sock (.handler v i)) :
    n'.Looks ⟨Function.update W.own u a, m⟩ := by
  refine ⟨hstore, fun v ↦ ?_⟩
  show n'.Shows v (Function.update W.own u a v)
  by_cases hv : v = u
  · subst hv
    rwa [Function.update_self]
  · rw [Function.update_of_ne hv]
    exact (h.shows v).congr (by rw [hhome, Function.update_of_ne hv])
      (fun i ↦ by rw [(hsock v hv i).1]) (fun i ↦ by rw [(hsock v hv i).2])

omit [DecidableEq ι] in
/-- What has happened cannot be seen. -/
theorem Looks.keep (h : n.Looks W) {b : Home ι} (hstore : n'.store = n.store)
    (hself : n'.Shows u (W.own u)) (hhome : n'.home = Function.update n.home u b)
    (hsock : ∀ v, v ≠ u → ∀ i, n'.sock (.client v i) = n.sock (.client v i) ∧
      n'.sock (.handler v i) = n.sock (.handler v i)) : n'.Looks W := by
  have hlooks := h.update (h.store.trans hstore.symm) hself hhome hsock
  rwa [Function.update_eq_self] at hlooks

theorem Looks.edit (h : n.Looks W) (hcall : (n.home u).call i = none) (m : Machine) :
    Looks (n.setHome u ((n.home u).edit i m))
      ⟨Function.update W.own u ((W.own u).edit i m), W.store⟩ :=
  h.update h.store ((h.shows u).edit hcall m) rfl fun _ _ _ ↦ ⟨rfl, rfl⟩

theorem Looks.ask (h : n.Looks W) (hn : n.Sorted reg) (hidle : ∀ j, (n.home u).call j = none) :
    Looks ((n.setHome u ((n.home u).setCall i (some ⟨deed, none⟩))).setSock
      (n.sock.post (.frontEnd u i) (n.sock (.frontEnd u i))
        [n.letter (.frontEnd u i) ((n.home u).primary i) .handshake
          (n.hello reg u i deed.req)])) W := by
  rw [hn.post_ask]
  exact h.keep rfl ((h.shows u).ask hn hidle (fun j ↦ by simp) (fun j ↦ by simp)) rfl
    fun v hv j ↦ by simp

theorem Looks.listen (h : n.Looks W) (hn : n.Sorted reg) (a : SockAddr) (hand : Handshake)
    (rest : List (SockAddr × Datagram sessionWire)) :
    Looks { n with
      sock := n.sock.post .server (n.read .server a rest)
        [n.letter .server reg.replicaAddress .rmOperation ⟨.clientLogin⟩,
          n.letter .server reg.replicaAddress .handshake hand]
      threads := n.threads ++ [(a, hand)] } W := by
  rw [hn.post_listen]
  exact ⟨h.store, fun v ↦ (h.shows v).congr rfl (fun j ↦ by simp) (fun j ↦ by simp)⟩

theorem Looks.treat (h : n.Looks W) (hn : n.Sorted reg) {a : SockAddr} {hand : Handshake}
    {l l' : List (SockAddr × Handshake)} {out : List (SockAddr × Syn)} {c : ClientData}
    (hthreads : n.threads = l ++ (a, hand) :: l') (hout : n.server.Answers ⟨hand, a, {}⟩ out)
    (hc : n.server.LoggedIn hand.userid hand.device c)
    (hport : (n.sock (.handler u i)).own = ⟨reg.host, c.port.toUInt16⟩) :
    ∃ deed, n.Asking reg u i deed ∧
      Looks ((n.treated a hand l l' out).setHome u ((n.home u).setThread i
          (some (RequestHandler.handleRequest hand.reqType))))
        ⟨Function.update W.own u ((W.own u).enter i deed), W.store⟩ := by
  obtain ⟨deed, hask, -, rfl, hsock⟩ := hn.post_treat hthreads hout hc hport
  exact ⟨deed, hask, h.update h.store ((h.shows u).enter hn hask (Function.update_self ..)
    (fun j ↦ by simp [hsock]) (fun j ↦ by simp [hsock])) rfl fun v hv j ↦ by simp [hsock]⟩

theorem Looks.connect (h : n.Looks W) (hn : n.Sorted reg) {a : SockAddr} {syn : Syn}
    {rest : List (SockAddr × Datagram sessionWire)}
    (hcall : (n.home u).call i = some ⟨deed, none⟩)
    (hunread : (n.sock (.frontEnd u i)).unread = some ((a, ⟨.syn, syn⟩) :: rest))
    (hs : n.Connects reg u i syn s) :
    Looks ((n.setHome u (((n.home u).setDevice i syn.device).setCall i
        (some ⟨deed, some ⟨(n.home u).client i, deed.program⟩⟩))).setSock
      (Function.update (Function.update n.sock (.frontEnd u i)
        (n.read (.frontEnd u i) a rest)) (.client u i) s)) W :=
  h.keep rfl ((h.shows u).connect hn hcall hunread hs (Function.update_self ..) (by simp)
    (fun j hj ↦ by simp [hj]) (fun j ↦ by simp)) rfl fun v hv j ↦ by simp [hv]

/-- A client has gone on. -/
theorem Looks.left (h : n.Looks W) (hn : n.Sorted reg)
    {e e' : Endpoint sessionWire Client.sig Bool} {f : Endpoint sessionWire RequestHandler.sig Bool}
    (hcall : (n.home u).call i = some ⟨deed, some e⟩) (hthread : (n.home u).thread i = some f.prog)
    (hstore : f.host.machine = n.store) :
    Looks ((n.setHome u ((n.home u).setCall i (some ⟨deed, some e'⟩))).setSock
        (Function.update (Function.update n.sock (.client u i) s) (.handler u i)
          ((n.sock (.handler u i)).hear out)))
      ⟨Function.update W.own u { W.own u with
          visit := some ((n.visitAt u i ⟨deed, some e⟩ f.prog).next
            (onSockets e' f s ((n.sock (.handler u i)).hear out))) }, f.host.machine⟩ := by
  refine h.update hstore ?_ rfl fun v hv j ↦ by simp [hv]
  refine (h.shows u).go hn (by simp [hcall]) (Function.update_self ..) rfl
    (Function.update_self ..) hthread (fun j _ ↦ rfl) (fun j hj ↦ by simp [hj])
    (fun j hj ↦ by simp [hj]) ?_
  simp [visitAt, Visit.next, onSockets]

/-- A request handler has gone on. -/
theorem Looks.right (h : n.Looks W) (hn : n.Sorted reg)
    {e : Endpoint sessionWire Client.sig Bool} {f : Endpoint sessionWire RequestHandler.sig Bool}
    {r : RequestHandler.Prog Bool} (hcall : (n.home u).call i = some ⟨deed, some e⟩) :
    Looks { (n.setHome u ((n.home u).setThread i (some f.prog))).setSock
          (Function.update (Function.update n.sock (.handler u i) s) (.client u i)
            ((n.sock (.client u i)).hear out)) with
        store := f.host.machine }
      ⟨Function.update W.own u { W.own u with
          visit := some ((n.visitAt u i ⟨deed, some e⟩ r).next
            (onSockets e f ((n.sock (.client u i)).hear out) s)) }, f.host.machine⟩ := by
  refine h.update rfl ?_ rfl fun v hv j ↦ by simp [hv]
  refine (h.shows u).go hn (by simp [hcall]) (Function.update_self ..) rfl hcall
    (Function.update_self ..) (fun j hj ↦ Function.update_of_ne hj ..)
    (fun j hj ↦ by simp [hj]) (fun j hj ↦ by simp [hj]) ?_
  simp [visitAt, Visit.next, onSockets]

theorem Looks.leave (h : n.Looks W) (hn : n.Sorted reg) {c : Client.Host} {p : Client.Prog Bool}
    {r : RequestHandler.Prog Bool} (hcall : (n.home u).call i = some ⟨deed, some ⟨c, p⟩⟩)
    (hthread : (n.home u).thread i = some r) :
    Looks (n.setHome u ((((n.home u).setClient i c).setCall i none).setThread i none))
      ⟨Function.update W.own u ((W.own u).leave (n.visitAt u i ⟨deed, some ⟨c, p⟩⟩ r)), W.store⟩ :=
  h.update h.store ((h.shows u).leave hn hcall hthread) rfl fun _ _ _ ↦ ⟨rfl, rfl⟩

end Looks

/-! ## Every run of the network is one of the town

One lemma for each kind of move that can be seen from the town. -/

section Refines

variable [DecidableEq υ] [DecidableEq ι] {reg : Register υ ι} {W₀ W : Town υ ι} {n n' : Net υ ι}
  {tr : List (υ × Household.Done ι)} {u : υ} {i : ι} {s : Socket SockAddr sessionWire}
  {out : List (Letter SockAddr sessionWire)}

/-- A thread answers a handshake and calls a request handler: a session begins. -/
theorem Looks.enter (hW : reg.toRoll.Rests W₀) (hr : reg.toRoll.Run W₀ tr W) (hn : n.Sorted reg)
    (h : n.Looks W) {a : SockAddr} {hand : Handshake} {l l' : List (SockAddr × Handshake)}
    {out : List (SockAddr × Syn)} {c : ClientData} (hthreads : n.threads = l ++ (a, hand) :: l')
    (hout : n.server.Answers ⟨hand, a, {}⟩ out)
    (hc : n.server.LoggedIn hand.userid hand.device c)
    (hport : (n.sock (.handler u i)).own = ⟨reg.host, c.port.toUInt16⟩) :
    Sorted reg ((n.treated a hand l l' out).setHome u ((n.home u).setThread i
        (some (RequestHandler.handleRequest hand.reqType)))) ∧
      ∃ deed, n.Asking reg u i deed ∧
        Tenant.Move (reg.name u) [] (W.own u, W.store) ((W.own u).enter i deed, W.store) ∧
        Looks ((n.treated a hand l l' out).setHome u ((n.home u).setThread i
            (some (RequestHandler.handleRequest hand.reqType))))
          ⟨Function.update W.own u ((W.own u).enter i deed), W.store⟩ := by
  obtain ⟨deed, hask, hlooks⟩ := h.treat hn hthreads hout hc hport
  have ha := h.shows u
  obtain ⟨hclient, hhandler⟩ := hW.tidy hr u i
  rw [ha.socket i hask.thread] at hclient
  rw [ha.inbox i hask.thread] at hhandler
  have hclient' : ∀ q ∈ (n.sock (.client u i)).unread, q = [] := by
    intro q hq
    rcases hclient with hi | hi <;> simp [Socket.inbox, Option.mem_def.mp hq] at hi
    exact hi
  have hhandler' : (n.sock (.handler u i)).unread = some [] := by
    simpa [Socket.inbox] using hhandler
  refine ⟨hn.treat hthreads hout hc hport hclient' hhandler', deed, hask,
    .enter (ha.visit_eq_none hn (by simp [hask.call]) hask.thread) (hask.proper.congr ?_ ?_),
    hlooks⟩
  · exact congrFun ha.client i
  · show (userHost W.store (reg.name u)).getFileInfoList = _
    rw [h.store]
    rfl

/-- A request handler goes on. -/
theorem Looks.handle (hW : reg.toRoll.Rests W₀) (hr : reg.toRoll.Run W₀ tr W) (hn : n.Sorted reg)
    (h : n.Looks W) {r : RequestHandler.Prog Bool}
    {f : Endpoint sessionWire RequestHandler.sig Bool} (hthread : (n.home u).thread i = some r)
    (htalk : Endpoint.talk RequestHandler.body ⟨userHost n.store (reg.name u), r⟩
      (n.sock (.handler u i)) = some (f, s, out)) :
    Sorted reg { (n.setHome u ((n.home u).setThread i (some f.prog))).setSock
        (n.sock.post (.handler u i) s out) with
      store := f.host.machine } ∧
    ∃ a m, Tenant.Move (reg.name u) [] (W.own u, W.store) (a, m) ∧
      Looks { (n.setHome u ((n.home u).setThread i (some f.prog))).setSock
          (n.sock.post (.handler u i) s out) with
        store := f.host.machine } ⟨Function.update W.own u a, m⟩ := by
  have hsorted (a : Tenant ι)
      (hm : Tenant.Move (reg.name u) [] (W.own u, W.store) (a, f.host.machine)) :=
    hn.right hthread htalk fun v hv ↦ by
      rw [← h.store]
      exact hW.list_eq hr (Ne.symm hv) hm
  cases hn.line u i with
  | idle _ hthread' => cases hthread.symm.trans hthread'
  | asked ha => cases hthread.symm.trans ha.thread
  | @answered deed _ c hcall hthread' hfront hport hmine hpeer hclient hhandler hlistens =>
    -- the client has not connected yet, and the request handler can only get ready
    obtain rfl := Option.some_inj.mp (hthread.symm.trans hthread')
    obtain ⟨hstep, -, hquiet⟩ := Endpoint.talk_spec htalk
    obtain ⟨rfl, hsame | ⟨b, d, q, hq, -⟩⟩ := hquiet hlistens
    · obtain ⟨rfl, -⟩ := hsame
      rw [← h.store] at hstep
      have hm := Tenant.Move.go ((h.shows u).visit i _ r hcall hthread)
        (Pair.Step.right (L := peers) hstep)
      refine ⟨hsorted _ hm, _, _, hm, ?_⟩
      rw [Sockets.post_nil, Function.update_eq_self]
      refine h.update rfl ?_ rfl fun _ _ _ ↦ ⟨rfl, rfl⟩
      refine (h.shows u).go hn (by simp [hcall]) (Function.update_self ..) rfl hcall
        (Function.update_self ..) (fun j hj ↦ Function.update_of_ne hj ..) (fun _ _ ↦ rfl)
        (fun _ _ ↦ rfl) ?_
      simp [visitAt, Visit.next, Visit.on, parcels]
    · cases hhandler.symm.trans hq
  | @talking deed e _ hcall hthread' hfront hmine hlinked =>
    obtain rfl := Option.some_inj.mp (hthread.symm.trans hthread')
    obtain ⟨hstep, -, -⟩ := Linked.right (L := peers) (e := e) hlinked htalk
    rw [← h.store] at hstep
    have hm := Tenant.Move.go ((h.shows u).visit i _ r hcall hthread) hstep
    refine ⟨hsorted _ hm, _, _, hm, ?_⟩
    rw [hn.post_right hcall hthread htalk]
    exact h.right hn hcall

/-- **One move of the network.** -/
theorem Looks.step (hW : reg.toRoll.Rests W₀) (hr : reg.toRoll.Run W₀ tr W) (hn : n.Sorted reg)
    (h : n.Looks W) {ls : List (υ × Household.Done ι)} (hm : Move reg n ls n') :
    n'.Sorted reg ∧ ∃ W', reg.toRoll.Run W₀ (tr ++ ls) W' ∧ n'.Looks W' := by
  have hnil : reg.toRoll.Run W₀ (tr ++ []) W := by rwa [List.append_nil]
  cases hm with
  | @edit u i hcall m =>
    refine ⟨hn.edit hcall m, _, hr.snoc (u := u) (.edit (i := i) (fun x hx hi ↦ ?_) m),
      h.edit hcall m⟩
    subst hi
    exact (h.shows u).call_of_visit hn hx hcall
  | ask hidle hp => exact ⟨hn.ask hidle hp, W, hnil, h.ask hn hidle⟩
  | listen hunread => exact ⟨hn.listen hunread, W, hnil, h.listen hn ..⟩
  | @treat a hand l l' out c u i hthreads hout hc hport hfree =>
    obtain ⟨hsorted, deed, -, hm, hlooks⟩ := h.enter hW hr hn hthreads hout hc hport
    exact ⟨hsorted, _, hr.snoc hm, hlooks⟩
  | dismiss hthreads hout hno =>
    obtain ⟨u, i, deed, c, -, -, -, hc, -⟩ := hn.found hthreads
    exact absurd hc (hno c)
  | connect hcall hunread hsyn hs =>
    exact ⟨hn.connect hcall hunread hs, W, hnil, h.connect hn hcall hunread hs⟩
  | refused hcall hunread hsyn =>
    obtain ⟨-, -, hconf, -⟩ := hn.answered hcall hunread
    cases hconf.symm.trans hsyn
  | @left u i deed e e' s out hcall htalk =>
    obtain ⟨r, hthread, -, -, hlinked⟩ := hn.linked hcall
    obtain ⟨hstep, -, -⟩ := Linked.left (L := peers) (f := ⟨userHost W.store (reg.name u), r⟩)
      hlinked htalk
    refine ⟨hn.left hcall htalk, _,
      hr.snoc (.go ((h.shows u).visit i _ r hcall hthread) hstep), ?_⟩
    rw [hn.post_left hcall htalk]
    exact h.left hn hcall hthread h.store
  | right hthread htalk =>
    obtain ⟨hsorted, a, m, hm, hlooks⟩ := h.handle hW hr hn hthread htalk
    exact ⟨hsorted, _, hr.snoc hm, hlooks⟩
  | @leave u i deed c b d hcall hthread =>
    have hret : ((n.visitAt u i ⟨deed, some ⟨c, .ret b⟩⟩ (.ret d)).on
        (userHost W.store (reg.name u))).Returned b d := ⟨rfl, rfl⟩
    exact ⟨hn.leave hcall, _, hr.snoc (.leave ((h.shows u).visit i _ _ hcall hthread) hret),
      h.leave hn hcall hthread⟩
  | redirect hunread => cases hunread.symm.trans (hn.listener ..)

end Refines

/-! ## Every run of the town is one of the network

The town has no state in which a client waits, so a network that is followed must have none either:
after each move of the town it is again `Met`. -/

/-- No client waits for the answer to a handshake. -/
def Met (n : Net υ ι) : Prop :=
  ∀ u i call, (n.home u).call i = some call → call.talks ≠ none

section Realizes

variable [DecidableEq υ] [DecidableEq ι] {reg : Register υ ι} {W₀ W : Town υ ι} {n n' : Net υ ι}
  {tr : List (υ × Household.Done ι)} {u : υ} {i : ι} {deed : Deed}

/-- Nobody does so because of a client that does not. -/
theorem Met.update (h : n.Met) {b : Home ι} {c : Option Call}
    (hhome : n'.home = Function.update n.home u b)
    (hcall : b.call = Function.update (n.home u).call i c) (hc : ∀ call ∈ c, call.talks ≠ none) :
    n'.Met := by
  intro v j call
  rw [hhome]
  by_cases hv : v = u
  · subst hv
    rw [Function.update_self, hcall]
    by_cases hj : j = i
    · subst hj
      rw [Function.update_self]
      exact hc call
    · rw [Function.update_of_ne hj]
      exact h v j call
  · rw [Function.update_of_ne hv]
    exact h v j call

omit [DecidableEq υ] [DecidableEq ι] in
/-- While no client waits there is no handshake that the server has to treat. -/
theorem Met.waiting_eq_nil (h : n.Met) (hn : n.Sorted reg) : n.waiting = [] := by
  refine List.eq_nil_iff_forall_not_mem.mpr fun p hp ↦ ?_
  obtain ⟨u, i, deed, hask, -⟩ := hn.asked hp
  exact h u i _ hask.call rfl

omit [DecidableEq υ] [DecidableEq ι] in
/-- A device that is in the middle of a command is in a session. -/
theorem Looks.linked (h : n.Looks W) (hn : n.Sorted reg) (hmet : n.Met)
    (hcall : (n.home u).call i ≠ none) : ∃ deed e r, (n.home u).call i = some ⟨deed, some e⟩ ∧
      (n.home u).thread i = some r ∧
      Linked RequestHandler.body (n.sock (.client u i)) (n.sock (.handler u i)) r ∧
      (W.own u).visit = some (n.visitAt u i ⟨deed, some e⟩ r) := by
  obtain ⟨⟨deed, talks⟩, hcall⟩ := Option.ne_none_iff_exists'.mp hcall
  obtain ⟨e, rfl⟩ := Option.ne_none_iff_exists'.mp (hmet u i _ hcall)
  obtain ⟨r, hthread, -, -, hlinked⟩ := hn.linked hcall
  exact ⟨deed, e, r, hcall, hthread, hlinked, (h.shows u).visit i _ r hcall hthread⟩

omit [DecidableEq υ] [DecidableEq ι] in
/-- A session that can be seen is that of such a device. -/
theorem Looks.session (h : n.Looks W) (hn : n.Sorted reg) (hmet : n.Met) {x : Visit ι}
    (hv : (W.own u).visit = some x) : ∃ i deed e r, (n.home u).call i = some ⟨deed, some e⟩ ∧
      (n.home u).thread i = some r ∧
      Linked RequestHandler.body (n.sock (.client u i)) (n.sock (.handler u i)) r ∧
      x = n.visitAt u i ⟨deed, some e⟩ r := by
  obtain ⟨deed, e, r, hcall, hthread, hlinked, hv'⟩ :=
    h.linked hn hmet ((h.shows u).call_of_visit hn hv)
  exact ⟨_, deed, e, r, hcall, hthread, hlinked, Option.some_inj.mp (hv.symm.trans hv')⟩

/-- A client that has been answered connects to its request handler. -/
theorem Looks.exists_connect (h : n.Looks W) (hn : n.Sorted reg) {r : RequestHandler.Prog Bool}
    (hcall : (n.home u).call i = some ⟨deed, none⟩) (hthread : (n.home u).thread i = some r) :
    ∃ n' b e, Move reg n [] n' ∧ n'.Sorted reg ∧ n'.Looks W ∧
      n'.home = Function.update n.home u b ∧
      b.call = Function.update (n.home u).call i (some ⟨deed, some e⟩) := by
  cases hn.line u i with
  | idle hcall' => cases hcall.symm.trans hcall'
  | asked ha => cases hthread.symm.trans ha.thread
  | talking hcall' => cases hcall.symm.trans hcall'
  | @answered _ _ c hcall' hthread' hfront hport =>
    obtain ⟨s, hs⟩ : ∃ s, n.Connects reg u i ⟨true, c.port, reg.number i⟩ s := by
      by_cases hopen : (n.sock (.client u i)).unread = none
      · exact ⟨_, .opened hopen fun t ht ↦ hn.distinct.ne ht⟩
      · exact ⟨_, .kept hopen⟩
    exact ⟨_, _, _, .connect hcall hfront rfl hs, hn.connect hcall hfront hs,
      h.connect hn hcall hfront hs, rfl, rfl⟩

/-- A handshake gets to a thread. -/
theorem Looks.exists_ask (h : n.Looks W) (hn : n.Sorted reg) (hmet : n.Met)
    (hidle : ∀ j, (n.home u).call j = none) (hp : (n.household reg u).Proper i deed) :
    ∃ n' a hand, Run reg n [] n' ∧ n'.Sorted reg ∧ n'.Looks W ∧ n'.threads = [(a, hand)] ∧
      n'.home = Function.update n.home u ((n.home u).setCall i (some ⟨deed, none⟩)) := by
  obtain ⟨hthreads, hunread⟩ := List.append_eq_nil_iff.mp (hmet.waiting_eq_nil hn)
  obtain ⟨n', hm, hn', h', hthreads', hunread', hhome⟩ : ∃ n', Move reg n [] n' ∧ n'.Sorted reg ∧
      n'.Looks W ∧ n'.threads = [] ∧
      (n'.sock .server).unread =
        some [((n.sock (.frontEnd u i)).own, handshake reg u i deed)] ∧
      n'.home = Function.update n.home u ((n.home u).setCall i (some ⟨deed, none⟩)) := by
    refine ⟨_, .ask hidle hp, hn.ask hidle hp, h.ask hn hidle, List.map_eq_nil_iff.mp hthreads,
      ?_, rfl⟩
    rw [hn.post_ask, setSock_sock, Function.update_self, hunread]
    rfl
  exact ⟨_, (n.sock (.frontEnd u i)).own, ⟨deed.req, reg.name u, reg.number i, {}⟩,
    ((Run.nil n).snoc hm).snoc (.listen hunread'), hn'.listen hunread', h'.listen hn' ..,
    congrArg (· ++ _) hthreads', hhome⟩

/-- A session begins. -/
theorem Looks.exists_enter (hW : reg.toRoll.Rests W₀) (hr : reg.toRoll.Run W₀ tr W)
    (hn : n.Sorted reg) (hmet : n.Met) (h : n.Looks W) (hidle : ∀ j, (n.home u).call j = none)
    (hp : (n.household reg u).Proper i deed) : ∃ n', Run reg n [] n' ∧ n'.Sorted reg ∧ n'.Met ∧
      n'.Looks ⟨Function.update W.own u ((W.own u).enter i deed), W.store⟩ := by
  obtain ⟨n₁, a, hand, hrun, hn₁, h₁, hthreads, hhome₁⟩ := h.exists_ask hn hmet hidle hp
  obtain ⟨v, j, deed', c, hask, -, -, hc, -, hport⟩ := hn₁.found (l := []) hthreads
  -- nobody else has asked for anything
  have hasked : v = u ∧ j = i ∧ deed' = deed := by
    have hcall := hask.call
    rw [hhome₁] at hcall
    by_cases hv : v = u
    · subst hv
      rw [Function.update_self, Home.setCall_call] at hcall
      by_cases hj : j = i
      · subst hj
        rw [Function.update_self] at hcall
        cases hcall
        exact ⟨rfl, rfl, rfl⟩
      · rw [Function.update_of_ne hj] at hcall
        cases hcall.symm.trans (hidle j)
    · rw [Function.update_of_ne hv] at hcall
      exact absurd rfl (hmet v j _ hcall)
  obtain ⟨rfl, rfl, rfl⟩ := hasked
  have hans := Server.answers_device (v := ⟨hand, a, {}⟩) (Accounts.ne_zero_of_loggedIn hc) hc.1
  obtain ⟨hn₂, deed', hask', -, h₂⟩ := h₁.enter hW hr hn₁ (l := []) hthreads hans hc hport
  cases hask.call.symm.trans hask'.call
  have htreat := hrun.snoc (.treat (l := []) hthreads hans hc hport hask.thread)
  obtain ⟨n₃, b, e, hconnect, hn₃, h₃, hhome₃, hcalls⟩ := h₂.exists_connect hn₂ (u := v) (i := j)
    (r := RequestHandler.handleRequest hand.reqType) (.trans (by simp) hask.call) (by simp)
  have hhome : n₃.home = Function.update n.home v b := by
    rw [hhome₃]
    show Function.update (Function.update n₁.home v _) v b = _
    rw [hhome₁, Function.update_idem, Function.update_idem]
  have hcall : b.call = Function.update (n.home v).call j (some ⟨deed', some e⟩) := by
    rw [hcalls]
    show Function.update (Function.update n₁.home v _ v).call j _ = _
    rw [hhome₁, Function.update_self, Function.update_self]
    exact Function.update_idem ..
  refine ⟨n₃, htreat.snoc hconnect, hn₃, hmet.update hhome hcall fun call hcall ↦ ?_, h₃⟩
  cases hcall
  exact Option.some_ne_none _

/-- **One move of the town.** -/
theorem Looks.follow (hW : reg.toRoll.Rests W₀) (hr : reg.toRoll.Run W₀ tr W) (hn : n.Sorted reg)
    (hmet : n.Met) (h : n.Looks W) {ls : List (Household.Done ι)} {a : Tenant ι} {m : Machine}
    (hm : Tenant.Move (reg.name u) ls (W.own u, W.store) (a, m)) :
    ∃ n', Run reg n (ls.map (u, ·)) n' ∧ n'.Sorted reg ∧ n'.Met ∧
      n'.Looks ⟨Function.update W.own u a, m⟩ := by
  have hrun {n' : Net υ ι} {ls : List (υ × Household.Done ι)} (hm : Move reg n ls n') :
      Run reg n ls n' := (Run.nil n).snoc hm
  cases hm with
  | @edit _ _ i hi m' =>
    have hcall : (n.home u).call i = none := by
      by_contra hcall
      obtain ⟨deed, e, r, -, -, -, hv⟩ := h.linked hn hmet hcall
      exact hi _ hv rfl
    exact ⟨_, hrun (.edit hcall m'), hn.edit hcall m',
      hmet.update rfl (Function.update_eq_self ..).symm (hmet u i), h.edit hcall m'⟩
  | @enter _ _ i deed hv hp =>
    refine h.exists_enter hW hr hn hmet (fun j ↦ ?_) (hp.congr ?_ ?_)
    · by_contra hcall
      obtain ⟨deed, e, r, -, -, -, hv'⟩ := h.linked hn hmet hcall
      cases hv.symm.trans hv'
    · exact (congrFun (h.shows u).client i).symm
    · show _ = (userHost W.store (reg.name u)).getFileInfoList
      rw [h.store]
      rfl
  | @go _ _ x y hv hs =>
    obtain ⟨i, deed, e, r, hcall, hthread, hlinked, rfl⟩ := h.session hn hmet hv
    rcases Linked.step_cases (L := peers) (e := e) (f := ⟨userHost W.store (reg.name u), r⟩)
      hlinked hs with ⟨e', s, out, htalk, rfl⟩ | ⟨f, s, out, htalk, rfl⟩
    · have hsorted := hn.left hcall htalk
      have hm : Move reg n [] _ := .left hcall htalk
      rw [hn.post_left hcall htalk] at hsorted hm
      refine ⟨_, hrun hm, hsorted, hmet.update rfl rfl fun call hj ↦ ?_,
        h.left hn hcall hthread h.store⟩
      cases hj
      exact Option.some_ne_none _
    · have hlist (v : υ) (hv' : v ≠ u) := hW.list_eq hr (Ne.symm hv') (.go hv hs)
      rw [h.store] at htalk hlist
      have hsorted := hn.right hthread htalk hlist
      have hm : Move reg n [] _ := .right hthread htalk
      rw [hn.post_right hcall hthread htalk] at hsorted hm
      exact ⟨_, hrun hm, hsorted, hmet.update rfl (Function.update_eq_self ..).symm (hmet u i),
        h.right hn hcall⟩
  | @leave _ _ x b c hv hret =>
    obtain ⟨i, deed, ⟨g, p⟩, r, hcall, hthread, hlinked, rfl⟩ := h.session hn hmet hv
    obtain ⟨rfl : p = .ret b, rfl : r = .ret c⟩ := hret
    have hm : Move reg n [(u, ⟨i, deed, b⟩)] _ := .leave hcall hthread
    exact ⟨_, hrun hm, hn.leave hcall, hmet.update rfl rfl (by simp), h.leave hn hcall hthread⟩

end Realizes

/-! ## From a quiet network

Nobody is in the middle of a command, so there is no session to look at: the town is read off the
homes and the machine of the server. -/

/-- The town that a network without sessions looks like. -/
def town (n : Net υ ι) : Town υ ι where
  own u :=
    { client := (n.home u).client
      socket := fun i ↦ (n.sock (.client u i)).inbox
      inbox := fun i ↦ (n.sock (.handler u i)).inbox }
  store := n.store

/-- All is well, and nobody is in the middle of anything. -/
structure Rests (reg : Register υ ι) (n : Net υ ι) : Prop where
  /-- All is well with the network. -/
  sorted : n.Sorted reg
  /-- No client has anything to do. -/
  idle : ∀ u i, (n.home u).call i = none
  /-- All is well with the files. -/
  town : reg.toRoll.Rests n.town

section Results

variable {reg : Register υ ι} {n : Net υ ι}

theorem Rests.looks (h : n.Rests reg) : n.Looks n.town := by
  refine ⟨rfl, fun u ↦ ⟨rfl, fun _ _ ↦ rfl, fun _ _ ↦ rfl, fun _ ↦ rfl, fun i call r hcall ↦ ?_⟩⟩
  cases hcall.symm.trans (h.idle u i)

theorem Rests.met (h : n.Rests reg) : n.Met := by
  intro u i call hcall
  cases hcall.symm.trans (h.idle u i)

variable [DecidableEq υ] [DecidableEq ι] {n' n'' : Net υ ι} {W : Town υ ι}
  {tr tr' : List (υ × Household.Done ι)}

theorem Run.append (hr : Run reg n tr n') (hr' : Run reg n' tr' n'') :
    Run reg n (tr ++ tr') n'' := by
  induction hr' with
  | nil => rwa [List.append_nil]
  | snoc _ hm ih =>
    rw [← List.append_assoc]
    exact ih.snoc hm

/-- Every run of the network is one of the town. -/
theorem Rests.refines (h : n.Rests reg) (hr : Run reg n tr n') :
    n'.Sorted reg ∧ ∃ W, reg.toRoll.Run n.town tr W ∧ n'.Looks W := by
  induction hr with
  | nil => exact ⟨h.sorted, _, .nil _, h.looks⟩
  | snoc _ hm ih =>
    obtain ⟨hsorted, W, hrun, hlooks⟩ := ih
    exact hlooks.step h.town hrun hsorted hm

/-- Every run of the town is one of the network. -/
theorem Rests.realizes (h : n.Rests reg) (hr : reg.toRoll.Run n.town tr W) :
    ∃ n', Run reg n tr n' ∧ n'.Sorted reg ∧ n'.Met ∧ n'.Looks W := by
  induction hr with
  | nil => exact ⟨n, .nil n, h.sorted, h.met, h.looks⟩
  | snoc hr hm ih =>
    obtain ⟨n', hrun, hsorted, hmet, hlooks⟩ := ih
    obtain ⟨n'', hrun', hsorted', hmet', hlooks'⟩ :=
      hlooks.follow h.town hr hsorted hmet hm
    exact ⟨n'', hrun.append hrun', hsorted', hmet', hlooks'⟩

/-- **The sockets do what channels do.**  Whatever is done on the network and in which order, every
datagram gets to where it belongs, and the users cannot tell their sessions from sessions that have
channels of their own; and whatever can be done in such sessions can be done on the network. -/
theorem network_refines (h : n.Rests reg) :
    (∀ tr n', Run reg n tr n' →
      n'.Sorted reg ∧ ∃ W, reg.toRoll.Run n.town tr W ∧ n'.Looks W) ∧
    ∀ tr W, reg.toRoll.Run n.town tr W → ∃ n', Run reg n tr n' ∧ n'.Looks W := by
  refine ⟨fun tr n' hr ↦ h.refines hr, fun tr W hr ↦ ?_⟩
  obtain ⟨n', hrun, -, -, hlooks⟩ := h.realizes hr
  exact ⟨n', hrun, hlooks⟩

end Results
end Net

/-! ## Two users

A network with two users and one device each, for which all conditions hold. -/

/-- Two users with one device each. -/
def twoRegister : Register Bool Unit where
  toRoll := twoNames
  number _ := 1
  host := 7
  replicaAddress := ⟨7, 4999⟩

/-- The two users after they have logged in and their first sessions are over. -/
def twoDesksNet : Net Bool Unit where
  sock
    | .server => ⟨⟨7, 5000⟩, ⟨2, 6000⟩, some []⟩
    | .replica => ⟨⟨7, 4999⟩, ⟨7, 5000⟩, some []⟩
    | .handler u _ => ⟨⟨7, if u then 5002 else 5003⟩, ⟨if u then 1 else 2, 6002⟩, some []⟩
    | .frontEnd u _ => ⟨⟨if u then 1 else 2, 6000⟩, ⟨7, 5000⟩, some []⟩
    | .listener u _ => ⟨⟨if u then 1 else 2, 6001⟩, {}, some []⟩
    | .client u _ => ⟨⟨if u then 1 else 2, 6002⟩, ⟨7, if u then 5002 else 5003⟩, none⟩
  home u :=
    { client := (twoTenants.own u).client
      device := fun _ ↦ 1
      primary := fun _ ↦ ⟨7, 5000⟩
      call := fun _ ↦ none
      thread := fun _ ↦ none }
  server :=
    Server.leaves ⟨⟨.login, ['v'], 0, {}⟩, ⟨2, 6000⟩, {}⟩
      (Server.leaves ⟨⟨.login, ['u'], 0, {}⟩, ⟨1, 6000⟩, {}⟩ (.start 5000))
  threads := []
  store := twoTenants.store

/-- Whose address it is. -/
def twoDesksNet.seatOf (a : SockAddr) : Seat Bool Unit :=
  if a.addr = 7 then
    if a.port = 5000 then .server
    else if a.port = 4999 then .replica
    else .handler (a.port = 5002) ()
  else if a.port = 6000 then .frontEnd (a.addr = 1) ()
  else if a.port = 6001 then .listener (a.addr = 1) ()
  else .client (a.addr = 1) ()

theorem twoDesksNet_distinct : Sockets.Distinct twoDesksNet.sock := by
  refine Function.LeftInverse.injective (g := twoDesksNet.seatOf) fun t ↦ ?_
  rcases t with _ | _ | ⟨_ | _, _⟩ | ⟨_ | _, _⟩ | ⟨_ | _, _⟩ | ⟨_ | _, _⟩ <;> rfl

theorem twoDesksNet_rests : twoDesksNet.Rests twoRegister where
  sorted :=
    { distinct := twoDesksNet_distinct
      replica := rfl
      server := by decide
      primary := fun _ _ ↦ rfl
      listener := fun _ _ ↦ rfl
      loggedIn := fun u _ ↦ by cases u <;> exact ⟨_, ⟨rfl, rfl⟩, rfl, rfl⟩
      device := fun _ _ ↦ rfl
      known := fun p hp ↦ by simp [Net.waiting, Net.asArrived, twoDesksNet] at hp
      one := fun u i j _ _ ↦ rfl
      line := fun u i ↦ .idle rfl rfl rfl rfl fun h ↦ absurd rfl h }
  idle _ _ := rfl
  town := twoTenants_rests

/-- While the second user has begun to upload its file, the first one can upload its own, on the
network as in the town; and all is well with the sockets then. -/
theorem twoDesksNet_refines : ∃ b n',
    Net.Run twoRegister twoDesksNet [(true, ⟨(), .command (.upload ['f']), b⟩)] n' ∧
      n'.Sorted twoRegister ∧ (n'.home false).thread () ≠ none := by
  obtain ⟨b, W, hr, -, hothers⟩ :=
    Roll.canFinish_of_idle (W := oneInside) (twoTenants_rests.sound true)
      (twoTenants_rests.houses true) rfl (twoTenants_proper true) ⟨rfl, _, rfl⟩
  obtain ⟨hrefines, hrealizes⟩ := Net.network_refines twoDesksNet_rests
  obtain ⟨n', hrun, hlooks⟩ := hrealizes _ W (oneInside_run.append hr)
  refine ⟨b, n', hrun, (hrefines _ n' hrun).1, fun hnone ↦ ?_⟩
  have hvisit := (hlooks.shows false).rests fun _ ↦ hnone
  rw [hothers false (by decide)] at hvisit
  cases hvisit

end Bropdox
