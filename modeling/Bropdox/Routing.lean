import Bropdox.Accounts
import Bropdox.Network

/-!
# Every datagram gets to where it belongs

The sessions of all users share one network, and nothing in a datagram says which of them it is for.
A request handler reads whatever arrives on the port that `PortManager` gave it, and the server
reads the handshakes of all front ends from one socket.  That no session reads the datagrams of
another one is therefore a fact about the order in which the programs connect and send, and this
file proves it for every run.

## What is here

* `Net.waiting` and `Net.mine` are the handshakes that no thread has treated yet, of all devices and
  of one.
* `Net.Line` says how far a device is with a command, and what there may be on its sockets then:
  nothing at all, a handshake under way, an answer under way with the request handler listening on a
  fresh queue, or a session whose two sockets are `Linked`.
* `Net.Sorted` is the invariant: each device is at some point of its line, the addresses are
  distinct, everybody knows the address of the server, and a user has one command under way at a
  time.
* `Sorted.touch` is the frame lemma that every move goes through.  What is done for one device
  leaves the others where they are, provided that the socket of the server holds the same handshakes
  of the others as before.
* The remaining lemmas are the moves one by one: a datagram of the client (`Sorted.post_left`) and
  of the request handler (`Sorted.post_right`) gets to the other side of the same session, a
  handshake to the server (`Sorted.post_ask`), and the answer to the front end that asked
  (`Sorted.post_treat`).

The restriction to one command of a user at a time is `Sorted.one`.  It is not something that the
server checks: two devices of a user may well be in sessions at the same time, and what they then do
to the user's directory depends on the order of their file operations.
-/

set_option autoImplicit false

namespace Bropdox

open FileSystem Session Program SocketHandler Peers

/-- What is left over of a list of which one element was looked for. -/
theorem filter_eq_nil_of_cons {α : Type} {p : α → Bool} {x : α} {l l' : List α}
    (h : (l ++ x :: l').filter p = [x]) (hx : p x = true) : (l ++ l').filter p = [] := by
  rw [List.filter_append, List.filter_cons_of_pos hx] at h
  rw [List.filter_append]
  rcases List.append_eq_cons_iff.mp h with ⟨hl, hr⟩ | ⟨k, hl, hr⟩
  · rw [hl, List.nil_append]
    exact (List.cons.inj hr).2
  · cases k <;> cases hr

namespace Net

variable {υ ι : Type}

/-- Handshakes as they have arrived. -/
def asArrived (hands : List (SockAddr × Handshake)) : List (SockAddr × Datagram sessionWire) :=
  hands.map fun p ↦ (p.1, ⟨.handshake, p.2⟩)

/-- The handshakes that have not been treated yet, and where they come from. -/
def waiting (n : Net υ ι) : List (SockAddr × Datagram sessionWire) :=
  asArrived n.threads ++ (n.sock .server).unread.getD []

/-- The handshakes of one device that have not been treated yet: those that its front end has sent.
-/
def mine (n : Net υ ι) (u : υ) (i : ι) : List (SockAddr × Datagram sessionWire) :=
  n.waiting.filter (·.1 = (n.sock (.frontEnd u i)).own)

/-- The handshake of a device. -/
def handshake (reg : Register υ ι) (u : υ) (i : ι) (deed : Deed) : Datagram sessionWire :=
  ⟨.handshake, ⟨deed.req, reg.name u, reg.number i, {}⟩⟩

/-- A device has sent a handshake that has not been treated yet. -/
structure Asking (reg : Register υ ι) (n : Net υ ι) (u : υ) (i : ι) (deed : Deed) : Prop where
  /-- The client waits. -/
  call : (n.home u).call i = some ⟨deed, none⟩
  /-- The request handler of the device has not been called. -/
  thread : (n.home u).thread i = none
  /-- The front end of the device has no answer yet. -/
  front : (n.sock (.frontEnd u i)).unread = some []
  /-- One handshake of the device waits at the server. -/
  mine : n.mine u i = [((n.sock (.frontEnd u i)).own, handshake reg u i deed)]
  /-- A socket that the client still has is one to its request handler. -/
  peer : (n.sock (.client u i)).unread ≠ none →
    (n.sock (.client u i)).peer = (n.sock (.handler u i)).own
  /-- The command is a proper one. -/
  proper : (n.household reg u).Proper i deed

/-- How far a device is with a command, and what there is on its sockets then. -/
inductive Line (reg : Register υ ι) (n : Net υ ι) (u : υ) (i : ι) : Prop
  | idle (hcall : (n.home u).call i = none) (hthread : (n.home u).thread i = none)
      (hfront : (n.sock (.frontEnd u i)).unread = some []) (hmine : n.mine u i = [])
      (hpeer : (n.sock (.client u i)).unread ≠ none →
        (n.sock (.client u i)).peer = (n.sock (.handler u i)).own)
  | asked {deed : Deed} (h : n.Asking reg u i deed)
  | answered {deed : Deed} {r : RequestHandler.Prog Bool} {c : ClientData}
      (hcall : (n.home u).call i = some ⟨deed, none⟩) (hthread : (n.home u).thread i = some r)
      (hfront : (n.sock (.frontEnd u i)).unread =
        some [((n.sock .server).own, ⟨.syn, ⟨true, c.port, reg.number i⟩⟩)])
      (hport : (n.sock (.handler u i)).own = ⟨reg.host, c.port.toUInt16⟩)
      (hmine : n.mine u i = [])
      (hpeer : (n.sock (.client u i)).unread ≠ none →
        (n.sock (.client u i)).peer = (n.sock (.handler u i)).own)
      (hclient : ∀ q ∈ (n.sock (.client u i)).unread, q = [])
      (hhandler : (n.sock (.handler u i)).unread = some [])
      (hlistens : r.Listens RequestHandler.body)
  | talking {deed : Deed} {e : Endpoint sessionWire Client.sig Bool}
      {r : RequestHandler.Prog Bool} (hcall : (n.home u).call i = some ⟨deed, some e⟩)
      (hthread : (n.home u).thread i = some r)
      (hfront : (n.sock (.frontEnd u i)).unread = some []) (hmine : n.mine u i = [])
      (hlinked : Linked RequestHandler.body (n.sock (.client u i)) (n.sock (.handler u i)) r)

/-- The invariant of the network: the addresses are known and distinct, every device is logged in
and at some point of its line, and each user gives one command after the other. -/
structure Sorted (reg : Register υ ι) (n : Net υ ι) : Prop where
  /-- No two sockets have the same address. -/
  distinct : Sockets.Distinct n.sock
  /-- The server knows where its replica manager is. -/
  replica : (n.sock .replica).own = reg.replicaAddress
  /-- The server listens. -/
  server : (n.sock .server).unread ≠ none
  /-- The front ends know the address of the server. -/
  primary : ∀ u i, (n.home u).primary i = (n.sock .server).own
  /-- Nobody sends anything to the listeners of the front ends. -/
  listener : ∀ u i, (n.sock (.listener u i)).unread = some []
  /-- All devices are logged in, and their request handlers are where the server says. -/
  loggedIn : ∀ u i, ∃ c, n.server.LoggedIn (reg.name u) (reg.number i) c ∧
    c.handler.device = reg.number i ∧
      (n.sock (.handler u i)).own = ⟨reg.host, c.port.toUInt16⟩
  /-- The devices know their numbers. -/
  device : ∀ u i, (n.home u).device i = reg.number i
  /-- All handshakes come from front ends. -/
  known : ∀ p ∈ n.waiting, ∃ u i, p.1 = (n.sock (.frontEnd u i)).own
  /-- A user gives one command after the other. -/
  one : ∀ u i j, (n.home u).call i ≠ none → (n.home u).call j ≠ none → i = j
  /-- Each device is where it should be. -/
  line : ∀ u i, n.Line reg u i

/-! ## What does not change

A move of one device changes its sockets, its home and perhaps what has arrived at the server.
`SameLine` is what the other devices see of it. -/

/-- What a device sees of the network is the same before and after. -/
structure SameLine (n n' : Net υ ι) (u : υ) (i : ι) : Prop where
  /-- The socket of the client is as before. -/
  client : n'.sock (.client u i) = n.sock (.client u i)
  /-- The socket of the request handler is as before. -/
  handler : n'.sock (.handler u i) = n.sock (.handler u i)
  /-- The socket of the front end is as before. -/
  frontEnd : n'.sock (.frontEnd u i) = n.sock (.frontEnd u i)
  /-- The files of the device are as before. -/
  files : (n'.home u).client i = (n.home u).client i
  /-- The client is in the middle of the same command. -/
  call : (n'.home u).call i = (n.home u).call i
  /-- The request handler is in the middle of the same program. -/
  thread : (n'.home u).thread i = (n.home u).thread i
  /-- The same handshakes of the device wait at the server. -/
  mine : n'.mine u i = n.mine u i

/-- A device that has not been touched is where it should be. -/
theorem Line.congr {reg : Register υ ι} {n n' : Net υ ι} {u : υ} {i : ι} (h : n.Line reg u i)
    (hsame : SameLine n n' u i) (hserver : (n'.sock .server).own = (n.sock .server).own)
    (hlist : (n.home u).call i ≠ none → (userHost n'.store (reg.name u)).getFileInfoList =
      (userHost n.store (reg.name u)).getFileInfoList) : n'.Line reg u i := by
  cases h with
  | idle hcall hthread hfront hmine hpeer =>
    refine .idle (hsame.call.trans hcall) (hsame.thread.trans hthread) ?_
      (hsame.mine.trans hmine) ?_
    · rwa [hsame.frontEnd]
    · rwa [hsame.client, hsame.handler]
  | asked h =>
    refine .asked ⟨hsame.call.trans h.call, hsame.thread.trans h.thread, ?_, ?_, ?_,
      h.proper.congr hsame.files (hlist (by simp [h.call]))⟩
    · rw [hsame.frontEnd, h.front]
    · rw [hsame.frontEnd, hsame.mine, h.mine]
    · rw [hsame.client, hsame.handler]
      exact h.peer
  | answered hcall hthread hfront hport hmine hpeer hclient hhandler hlistens =>
    rw [← hsame.handler] at hport
    refine .answered (hsame.call.trans hcall) (hsame.thread.trans hthread) ?_ hport
      (hsame.mine.trans hmine) ?_ ?_ ?_ hlistens
    · rwa [hsame.frontEnd, hserver]
    · rwa [hsame.client, hsame.handler]
    · rwa [hsame.client]
    · rwa [hsame.handler]
  | talking hcall hthread hfront hmine hlinked =>
    refine .talking (hsame.call.trans hcall) (hsame.thread.trans hthread) ?_
      (hsame.mine.trans hmine) ?_
    · rwa [hsame.frontEnd]
    · rwa [hsame.client, hsame.handler]

section Touch

variable [DecidableEq υ] {reg : Register υ ι} {n n' : Net υ ι} {u : υ} {i : ι} {a : Home ι}

/-- What is the same in the home that is touched is the same in all. -/
theorem home_congr {γ : Type} {g : Home ι → γ} (hhome : n'.home = Function.update n.home u a)
    (hg : g a = g (n.home u)) (v : υ) : g (n'.home v) = g (n.home v) := by
  rw [hhome]
  by_cases hv : v = u
  · subst hv
    rw [Function.update_self, hg]
  · rw [Function.update_of_ne hv]

/-- A device that is not touched keeps its sockets, its files and what it is in the middle of. -/
theorem sameLine_of_touch (hhome : n'.home = Function.update n.home u a)
    (hfiles : ∀ j, j ≠ i → a.client j = (n.home u).client j)
    (hcalls : ∀ j, j ≠ i → a.call j = (n.home u).call j)
    (hthreads : ∀ j, j ≠ i → a.thread j = (n.home u).thread j)
    (hsock : ∀ t, t ≠ .client u i → t ≠ .handler u i → t ≠ .frontEnd u i → t ≠ .server →
      t ≠ .replica → n'.sock t = n.sock t)
    {v : υ} {j : ι} (hne : ¬ (v = u ∧ j = i)) (hmine : n'.mine v j = n.mine v j) :
    SameLine n n' v j := by
  have hsame : (n'.home v).client j = (n.home v).client j ∧
      (n'.home v).call j = (n.home v).call j ∧ (n'.home v).thread j = (n.home v).thread j := by
    rw [hhome]
    by_cases hv : v = u
    · subst hv
      have hj : j ≠ i := fun hj ↦ hne ⟨rfl, hj⟩
      simp [hfiles j hj, hcalls j hj, hthreads j hj]
    · simp [hv]
  exact ⟨hsock _ (by simpa using hne) (by simp) (by simp) (by simp) (by simp),
    hsock _ (by simp) (by simpa using hne) (by simp) (by simp) (by simp),
    hsock _ (by simp) (by simp) (by simpa using hne) (by simp) (by simp),
    hsame.1, hsame.2.1, hsame.2.2, hmine⟩

/-- If only one device begins something, and no other device of its user is in the middle of
anything, then a user still gives one command after the other. -/
theorem Sorted.one_of_touch (h : n.Sorted reg)
    (hsame : ∀ v j, ¬ (v = u ∧ j = i) → (n'.home v).call j = (n.home v).call j)
    (hcall : (n'.home u).call i ≠ none → ∀ j, (n.home u).call j ≠ none → j = i)
    (v : υ) (j k : ι) (hj : (n'.home v).call j ≠ none) (hk : (n'.home v).call k ≠ none) :
    j = k := by
  by_cases hju : v = u ∧ j = i
  · obtain ⟨rfl, rfl⟩ := hju
    by_cases hku : k = j
    · exact hku.symm
    · rw [hsame v k (by simp [hku])] at hk
      exact (hcall hj k hk).symm
  · rw [hsame v j hju] at hj
    by_cases hku : v = u ∧ k = i
    · obtain ⟨rfl, rfl⟩ := hku
      exact hcall hk j hj
    · rw [hsame v k hku] at hk
      exact h.one v j k hj hk

/-- **What is done for one device leaves the others where they are.** -/
theorem Sorted.touch (h : n.Sorted reg) (u : υ) (i : ι)
    (hhome : n'.home = Function.update n.home u a)
    (hprimary : a.primary = (n.home u).primary) (hdevice : a.device = (n.home u).device)
    (hfiles : ∀ j, j ≠ i → a.client j = (n.home u).client j)
    (hcalls : ∀ j, j ≠ i → a.call j = (n.home u).call j)
    (hthreads : ∀ j, j ≠ i → a.thread j = (n.home u).thread j)
    (hcall : a.call i ≠ none → ∀ j, (n.home u).call j ≠ none → j = i)
    (hsock : ∀ t, t ≠ .client u i → t ≠ .handler u i → t ≠ .frontEnd u i → t ≠ .server →
      t ≠ .replica → n'.sock t = n.sock t)
    (hdistinct : Sockets.Distinct n'.sock)
    (hown : ∀ t, t ≠ .client u i → (n'.sock t).own = (n.sock t).own)
    (hserver : (n'.sock .server).unread ≠ none)
    (hlogged : ∀ w d c, n.server.LoggedIn w d c → n'.server.LoggedIn w d c)
    {l : List (SockAddr × Datagram sessionWire)} (hwaiting : n'.waiting = l)
    (hknown : ∀ p ∈ l, p ∈ n.waiting ∨ p.1 = (n.sock (.frontEnd u i)).own)
    (hmine : ∀ v j, ¬ (v = u ∧ j = i) →
      l.filter (·.1 = (n.sock (.frontEnd v j)).own) = n.mine v j)
    (hlist : ∀ v j, ¬ (v = u ∧ j = i) → (n.home v).call j ≠ none →
      (userHost n'.store (reg.name v)).getFileInfoList =
        (userHost n.store (reg.name v)).getFileInfoList)
    (hline : n'.home u = a → n'.mine u i = l.filter (·.1 = (n.sock (.frontEnd u i)).own) →
      n'.Line reg u i) : n'.Sorted reg := by
  have ha : n'.home u = a := by rw [hhome, Function.update_self]
  have hmine' (v : υ) (j : ι) :
      n'.mine v j = l.filter (·.1 = (n.sock (.frontEnd v j)).own) := by
    rw [mine, hwaiting, hown _ (by simp)]
  have hother (v : υ) (j : ι) (hne : ¬ (v = u ∧ j = i)) : SameLine n n' v j :=
    sameLine_of_touch hhome hfiles hcalls hthreads hsock hne ((hmine' v j).trans (hmine v j hne))
  refine ⟨hdistinct, (hown _ (by simp)).trans h.replica, hserver, fun v j ↦ ?_, fun v j ↦ ?_,
    fun v j ↦ ?_, fun v j ↦ ?_, fun p hp ↦ ?_,
    h.one_of_touch (fun v j hne ↦ (hother v j hne).call) (ha ▸ hcall), fun v j ↦ ?_⟩
  · rw [hown _ (by simp), ← h.primary v j, home_congr hhome hprimary]
  · rw [hsock _ (by simp) (by simp) (by simp) (by simp) (by simp)]
    exact h.listener v j
  · obtain ⟨c, hc, hd, hport⟩ := h.loggedIn v j
    exact ⟨c, hlogged _ _ _ hc, hd, (hown _ (by simp)).trans hport⟩
  · rw [← h.device v j, home_congr hhome hdevice]
  · rcases hknown p (hwaiting ▸ hp) with hp | hp
    · obtain ⟨v, j, he⟩ := h.known p hp
      exact ⟨v, j, he.trans (hown _ (by simp)).symm⟩
    · exact ⟨u, i, hp.trans (hown _ (by simp)).symm⟩
  · by_cases hvj : v = u ∧ j = i
    · obtain ⟨rfl, rfl⟩ := hvj
      exact hline ha (hmine' v j)
    · exact (h.line v j).congr (hother v j hvj) (hown _ (by simp)) (hlist v j hvj)

/-- What is done for one device leaves the others where they are, in particular if nothing arrives
at the server and nothing is taken from it. -/
theorem Sorted.aside (h : n.Sorted reg) (u : υ) (i : ι)
    (hhome : n'.home = Function.update n.home u a)
    (hprimary : a.primary = (n.home u).primary) (hdevice : a.device = (n.home u).device)
    (hfiles : ∀ j, j ≠ i → a.client j = (n.home u).client j)
    (hcalls : ∀ j, j ≠ i → a.call j = (n.home u).call j)
    (hthreads : ∀ j, j ≠ i → a.thread j = (n.home u).thread j)
    (hcall : a.call i ≠ none → ∀ j, (n.home u).call j ≠ none → j = i)
    (hsock : ∀ t, t ≠ .client u i → t ≠ .handler u i → t ≠ .frontEnd u i →
      n'.sock t = n.sock t)
    (hdistinct : Sockets.Distinct n'.sock)
    (hown : ∀ t, t ≠ .client u i → (n'.sock t).own = (n.sock t).own)
    (hpending : n'.threads = n.threads) (htables : n'.server = n.server)
    (hlist : ∀ v j, ¬ (v = u ∧ j = i) → (n.home v).call j ≠ none →
      (userHost n'.store (reg.name v)).getFileInfoList =
        (userHost n.store (reg.name v)).getFileInfoList)
    (hline : n'.home u = a → n'.mine u i = n.mine u i → n'.Line reg u i) : n'.Sorted reg := by
  have hserver : n'.sock .server = n.sock .server := hsock _ (by simp) (by simp) (by simp)
  have hwaiting : n'.waiting = n.waiting := by rw [waiting, waiting, hpending, hserver]
  refine h.touch u i hhome hprimary hdevice hfiles hcalls hthreads hcall
    (fun t h₁ h₂ h₃ _ _ ↦ hsock t h₁ h₂ h₃) hdistinct hown ?_ ?_ hwaiting (fun p hp ↦ .inl hp)
    (fun v j _ ↦ rfl) hlist hline
  · rw [hserver]
    exact h.server
  · rw [htables]
    exact fun w d c hc ↦ hc

end Touch

/-! ## One move

For each constructor of the move relation: what is on the sockets that it reads, and where what it
sends ends up. -/

section Moves

variable [DecidableEq υ] [DecidableEq ι] {reg : Register υ ι} {n : Net υ ι} {u : υ} {i : ι}
  {deed : Deed} {s : Socket SockAddr sessionWire} {out : List (Letter SockAddr sessionWire)}

omit [DecidableEq υ] [DecidableEq ι] in
/-- A client in the middle of its program. -/
theorem Sorted.linked (h : n.Sorted reg) {e : Endpoint sessionWire Client.sig Bool}
    (hcall : (n.home u).call i = some ⟨deed, some e⟩) : ∃ r, (n.home u).thread i = some r ∧
      (n.sock (.frontEnd u i)).unread = some [] ∧ n.mine u i = [] ∧
        Linked RequestHandler.body (n.sock (.client u i)) (n.sock (.handler u i)) r := by
  cases h.line u i with
  | idle hcall' => cases hcall.symm.trans hcall'
  | asked ha => cases hcall.symm.trans ha.call
  | answered hcall' => cases hcall.symm.trans hcall'
  | talking hcall' hthread hfront hmine hlinked => exact ⟨_, hthread, hfront, hmine, hlinked⟩

/-- What the client of a session sends gets to the request handler of that session. -/
theorem Sorted.post_left (h : n.Sorted reg) {e e' : Endpoint sessionWire Client.sig Bool}
    (hcall : (n.home u).call i = some ⟨deed, some e⟩)
    (htalk : e.talk Client.body (n.sock (.client u i)) = some (e', s, out)) :
    n.sock.post (.client u i) s out = Function.update (Function.update n.sock (.client u i) s)
      (.handler u i) ((n.sock (.handler u i)).hear out) := by
  obtain ⟨r, -, -, -, hlinked⟩ := h.linked hcall
  obtain ⟨-, -, hdest⟩ := Linked.left (L := peers) (f := ⟨userHost n.store [], r⟩) hlinked htalk
  exact h.distinct.post_eq (by simp) (Endpoint.talk_spec htalk).2.1.own_eq hdest

/-- What the request handler of a session sends gets to the client of that session. -/
theorem Sorted.post_right (h : n.Sorted reg) {e : Endpoint sessionWire Client.sig Bool}
    {f f' : Endpoint sessionWire RequestHandler.sig Bool}
    (hcall : (n.home u).call i = some ⟨deed, some e⟩)
    (hthread : (n.home u).thread i = some f.prog)
    (htalk : f.talk RequestHandler.body (n.sock (.handler u i)) = some (f', s, out)) :
    n.sock.post (.handler u i) s out = Function.update (Function.update n.sock (.handler u i) s)
      (.client u i) ((n.sock (.client u i)).hear out) := by
  obtain ⟨r, hthread', -, -, hlinked⟩ := h.linked hcall
  obtain rfl := Option.some_inj.mp (hthread.symm.trans hthread')
  obtain ⟨-, -, hdest⟩ := Linked.right (L := peers) (e := e) hlinked htalk
  exact h.distinct.post_eq (by simp) (Endpoint.talk_spec htalk).2.1.own_eq hdest

theorem Sorted.left (h : n.Sorted reg) {e e' : Endpoint sessionWire Client.sig Bool}
    (hcall : (n.home u).call i = some ⟨deed, some e⟩)
    (htalk : e.talk Client.body (n.sock (.client u i)) = some (e', s, out)) :
    Sorted reg ((n.setHome u ((n.home u).setCall i (some ⟨deed, some e'⟩))).setSock
      (n.sock.post (.client u i) s out)) := by
  obtain ⟨r, hthread, hfront, hmine, hlinked⟩ := h.linked hcall
  obtain ⟨-, hlinked', -⟩ := Linked.left (L := peers) (f := ⟨userHost n.store [], r⟩) hlinked htalk
  have hdistinct : Sockets.Distinct (n.sock.post (.client u i) s out) :=
    h.distinct.send (Endpoint.talk_spec htalk).2.1.own_eq
  rw [h.post_left hcall htalk] at hdistinct ⊢
  refine h.aside u i rfl rfl rfl (fun j hj ↦ rfl) (fun j hj ↦ by simp [hj]) (fun j hj ↦ rfl)
    ?_ ?_ hdistinct ?_ rfl rfl (fun v j _ _ ↦ rfl) fun ha hmine' ↦ ?_
  · intro _ j hj
    exact h.one u j i hj (by simp [hcall])
  · intro t h₁ h₂ _
    simp [h₁, h₂]
  · intro t h₁
    by_cases h₂ : t = .handler u i
    · subst h₂
      simp
    · simp [h₁, h₂]
  · exact .talking (by rw [ha]; exact Function.update_self ..) (by rwa [ha])
      (by simpa using hfront) (hmine'.trans hmine) (by simpa using hlinked')

/-- A thread in a request handler. -/
theorem Sorted.right (h : n.Sorted reg) {r : RequestHandler.Prog Bool}
    {f : Endpoint sessionWire RequestHandler.sig Bool} (hthread : (n.home u).thread i = some r)
    (htalk : Endpoint.talk RequestHandler.body ⟨userHost n.store (reg.name u), r⟩
      (n.sock (.handler u i)) = some (f, s, out))
    (hlist : ∀ v, v ≠ u → (userHost f.host.machine (reg.name v)).getFileInfoList =
      (userHost n.store (reg.name v)).getFileInfoList) :
    Sorted reg { (n.setHome u ((n.home u).setThread i (some f.prog))).setSock
        (n.sock.post (.handler u i) s out) with
      store := f.host.machine } := by
  have hs := (Endpoint.talk_spec htalk).2.1.own_eq
  have hdistinct : Sockets.Distinct (n.sock.post (.handler u i) s out) := h.distinct.send hs
  have hothers (hcall : (n.home u).call i ≠ none) (v : υ) (j : ι) (hne : ¬ (v = u ∧ j = i))
      (hj : (n.home v).call j ≠ none) : (userHost f.host.machine (reg.name v)).getFileInfoList =
        (userHost n.store (reg.name v)).getFileInfoList := by
    refine hlist v fun hv ↦ ?_
    subst hv
    exact hne ⟨rfl, h.one v j i hj hcall⟩
  cases h.line u i with
  | idle hcall hthread' => cases hthread.symm.trans hthread'
  | asked ha => cases hthread.symm.trans ha.thread
  | @answered deed _ c hcall hthread' hfront hport hmine hpeer hclient hhandler hlistens =>
    obtain rfl := Option.some_inj.mp (hthread.symm.trans hthread')
    obtain ⟨rfl, hsame | ⟨a, d, q, hq, -⟩⟩ := (Endpoint.talk_spec htalk).2.2 hlistens
    · obtain ⟨rfl, hlistens'⟩ := hsame
      rw [Sockets.post_nil, Function.update_eq_self] at hdistinct ⊢
      refine h.aside u i rfl rfl rfl (fun j hj ↦ rfl) (fun j hj ↦ rfl) (fun j hj ↦ by simp [hj])
        (fun _ j hj ↦ h.one u j i hj (by simp [hcall])) (fun t _ _ _ ↦ rfl) hdistinct
        (fun t _ ↦ rfl) rfl rfl (hothers (by simp [hcall])) fun ha hmine' ↦ ?_
      exact .answered (by rwa [ha]) (by rw [ha]; exact Function.update_self ..) hfront hport
        (hmine'.trans hmine) hpeer hclient hhandler hlistens'
    · cases hhandler.symm.trans hq
  | @talking deed e _ hcall hthread' hfront hmine hlinked =>
    obtain rfl := Option.some_inj.mp (hthread.symm.trans hthread')
    obtain ⟨-, hlinked', -⟩ := Linked.right (L := peers) (e := e) hlinked htalk
    rw [h.post_right hcall hthread htalk] at hdistinct ⊢
    refine h.aside u i rfl rfl rfl (fun j hj ↦ rfl) (fun j hj ↦ rfl) (fun j hj ↦ by simp [hj])
      (fun _ j hj ↦ h.one u j i hj (by simp [hcall])) ?_ hdistinct ?_ rfl rfl
      (hothers (by simp [hcall])) fun ha hmine' ↦ ?_
    · intro t h₁ h₂ _
      simp [h₁, h₂]
    · intro t h₁
      by_cases h₂ : t = .handler u i
      · subst h₂
        simpa using hs
      · simp [h₁, h₂]
    · exact .talking (by rwa [ha]) (by rw [ha]; exact Function.update_self ..)
        (by simpa using hfront) (hmine'.trans hmine) (by simpa using hlinked')

theorem Sorted.leave (h : n.Sorted reg) {c : Client.Host} {e : Endpoint sessionWire Client.sig Bool}
    (hcall : (n.home u).call i = some ⟨deed, some e⟩) :
    Sorted reg (n.setHome u ((((n.home u).setClient i c).setCall i none).setThread i none)) := by
  obtain ⟨r, hthread, hfront, hmine, hlinked⟩ := h.linked hcall
  refine h.aside u i rfl rfl rfl (fun j hj ↦ by simp [hj]) (fun j hj ↦ by simp [hj])
    (fun j hj ↦ by simp [hj]) (fun hne ↦ absurd (by simp) hne) (fun t _ _ _ ↦ rfl) h.distinct
    (fun t _ ↦ rfl) rfl rfl (fun v j _ _ ↦ rfl) fun ha hmine' ↦ ?_
  exact .idle (by rw [ha]; exact Function.update_self ..)
    (by rw [ha]; exact Function.update_self ..) hfront (hmine'.trans hmine) fun _ ↦ hlinked.peer

theorem Sorted.edit (h : n.Sorted reg) (hcall : (n.home u).call i = none) (m : Machine) :
    Sorted reg (n.setHome u ((n.home u).edit i m)) := by
  refine h.aside u i rfl rfl rfl (fun j hj ↦ by simp [Home.edit, hj]) (fun j hj ↦ rfl)
    (fun j hj ↦ rfl) (fun hne ↦ absurd hcall hne) (fun t _ _ _ ↦ rfl) h.distinct
    (fun t _ ↦ rfl) rfl rfl (fun v j _ _ ↦ rfl) fun ha hmine' ↦ ?_
  cases h.line u i with
  | idle _ hthread hfront hmine hpeer =>
    exact .idle (by rwa [ha]) (by rwa [ha]) hfront (hmine'.trans hmine) hpeer
  | asked ha => cases hcall.symm.trans ha.call
  | answered hcall' => cases hcall.symm.trans hcall'
  | talking hcall' => cases hcall.symm.trans hcall'

omit [DecidableEq υ] [DecidableEq ι] in
/-- What a front end reads is the answer to a handshake. -/
theorem Sorted.answered (h : n.Sorted reg) {a : SockAddr} {syn : Syn}
    {rest : List (SockAddr × Datagram sessionWire)}
    (hcall : (n.home u).call i = some ⟨deed, none⟩)
    (hunread : (n.sock (.frontEnd u i)).unread = some ((a, ⟨.syn, syn⟩) :: rest)) :
    rest = [] ∧ n.mine u i = [] ∧ syn.confirmation = true ∧ syn.device = reg.number i ∧
      (n.sock (.handler u i)).own = ⟨reg.host, syn.port.toUInt16⟩ ∧
      ((n.sock (.client u i)).unread ≠ none →
        (n.sock (.client u i)).peer = (n.sock (.handler u i)).own) ∧
      (∀ q ∈ (n.sock (.client u i)).unread, q = []) ∧
      (n.sock (.handler u i)).unread = some [] ∧
      ∃ r, (n.home u).thread i = some r ∧ r.Listens RequestHandler.body := by
  cases h.line u i with
  | idle hcall' => cases hcall.symm.trans hcall'
  | asked ha => cases hunread.symm.trans ha.front
  | answered _ hthread hfront hport hmine hpeer hclient hhandler hlistens =>
    cases hunread.symm.trans hfront
    exact ⟨rfl, hmine, rfl, rfl, hport, hpeer, hclient, hhandler, _, hthread, hlistens⟩
  | talking hcall' => cases hcall.symm.trans hcall'

/-- The socket a client goes on with shares its address with no other one. -/
theorem Connects.distinct {syn : Syn} (hs : n.Connects reg u i syn s)
    {m : Seat υ ι → Socket SockAddr sessionWire} (hm : Sockets.Distinct m)
    (hown : ∀ t, (m t).own = (n.sock t).own) :
    Sockets.Distinct (Function.update m (.client u i) s) := by
  cases hs with
  | kept _ => exact hm.change (hown _).symm
  | opened _ hfree => exact hm.update fun t ht ↦ (hown t).symm ▸ hfree t ht

theorem Sorted.connect (h : n.Sorted reg) {a : SockAddr} {syn : Syn}
    {rest : List (SockAddr × Datagram sessionWire)}
    (hcall : (n.home u).call i = some ⟨deed, none⟩)
    (hunread : (n.sock (.frontEnd u i)).unread = some ((a, ⟨.syn, syn⟩) :: rest))
    (hs : n.Connects reg u i syn s) {e : Endpoint sessionWire Client.sig Bool} :
    Sorted reg ((n.setHome u (((n.home u).setDevice i syn.device).setCall i
        (some ⟨deed, some e⟩))).setSock
      (Function.update (Function.update n.sock (.frontEnd u i)
        (n.read (.frontEnd u i) a rest)) (.client u i) s)) := by
  obtain ⟨rfl, hmine, -, hdevice, hport, hpeer, hclient, hhandler, r, hthread, hlistens⟩ :=
    h.answered hcall hunread
  have hown (t : Seat υ ι) : (Function.update n.sock (.frontEnd u i)
      (n.read (.frontEnd u i) a []) t).own = (n.sock t).own := by
    by_cases ht : t = .frontEnd u i
    · subst ht
      simp [Net.read]
    · simp [ht]
  have hlinked : Linked RequestHandler.body s (n.sock (.handler u i)) r := by
    have hheard : ∀ q ∈ (n.sock (.handler u i)).unread, q = [] := by simp [hhandler]
    cases hs with
    | kept hopen => exact .of_unheard (hpeer hopen) hclient hheard hlistens
    | opened _ _ => exact .of_unheard hport.symm (by simp) hheard hlistens
  refine h.aside u i rfl rfl ?_ (fun j hj ↦ rfl) (fun j hj ↦ by simp [hj]) (fun j hj ↦ rfl)
    ?_ ?_ (hs.distinct (h.distinct.change rfl) hown) ?_ rfl rfl (fun v j _ _ ↦ rfl)
    fun ha hmine' ↦ ?_
  · show Function.update (n.home u).device i syn.device = (n.home u).device
    rw [hdevice, ← h.device u i, Function.update_eq_self]
  · intro _ j hj
    exact h.one u j i hj (by simp [hcall])
  · intro t h₁ _ h₃
    simp [h₁, h₃]
  · intro t h₁
    simpa [h₁] using hown t
  · exact .talking (by rw [ha]; exact Function.update_self ..) (by rwa [ha])
      (by simp [Net.read]) (hmine'.trans hmine) (by simpa using hlinked)

omit [DecidableEq υ] [DecidableEq ι] in
theorem Sorted.frontEnd_ne (h : n.Sorted reg) {v : υ} {j : ι} (hne : ¬ (v = u ∧ j = i)) :
    (n.sock (.frontEnd u i)).own ≠ (n.sock (.frontEnd v j)).own := by
  intro hown
  cases h.distinct hown
  exact hne ⟨rfl, rfl⟩

omit [DecidableEq υ] [DecidableEq ι] in
/-- A handshake that has not been treated yet. -/
theorem Sorted.asked (h : n.Sorted reg) {p : SockAddr × Datagram sessionWire}
    (hp : p ∈ n.waiting) : ∃ u i deed, n.Asking reg u i deed ∧
      p = ((n.sock (.frontEnd u i)).own, handshake reg u i deed) := by
  obtain ⟨u, i, hown⟩ := h.known p hp
  have hmem : p ∈ n.mine u i := List.mem_filter.mpr ⟨hp, by simpa using hown⟩
  cases h.line u i with
  | asked ha =>
    rw [ha.mine, List.mem_singleton] at hmem
    exact ⟨u, i, _, ha, hmem⟩
  | idle _ _ _ hmine =>
    rw [hmine] at hmem
    cases hmem
  | answered _ _ _ _ hmine =>
    rw [hmine] at hmem
    cases hmem
  | talking _ _ _ hmine =>
    rw [hmine] at hmem
    cases hmem

/-- A handshake gets to the server. -/
theorem Sorted.post_ask (h : n.Sorted reg) (u : υ) (i : ι) (deed : Deed) :
    n.sock.post (.frontEnd u i) (n.sock (.frontEnd u i))
      [n.letter (.frontEnd u i) ((n.home u).primary i) .handshake (n.hello reg u i deed.req)] =
        Function.update n.sock .server { n.sock .server with
          unread := some ((n.sock .server).unread.getD [] ++
            [((n.sock (.frontEnd u i)).own, handshake reg u i deed)]) } := by
  have hhello : n.hello reg u i deed.req = ⟨deed.req, reg.name u, reg.number i, {}⟩ := by
    rw [hello, h.device]
  have hletter : n.letter (.frontEnd u i) ((n.home u).primary i) .handshake
      (n.hello reg u i deed.req) =
        ⟨(n.sock (.frontEnd u i)).own, (n.sock .server).own, handshake reg u i deed⟩ := by
    rw [letter, hhello, h.primary, handshake]
  rw [hletter, h.distinct.post_eq (m := .server) (by simp) rfl (by simp),
    Function.update_eq_self]
  obtain ⟨q, hq⟩ := Option.ne_none_iff_exists'.mp h.server
  simp [Socket.hear, hq]

theorem Sorted.ask (h : n.Sorted reg) (hidle : ∀ j, (n.home u).call j = none)
    (hp : (n.household reg u).Proper i deed) :
    Sorted reg ((n.setHome u ((n.home u).setCall i (some ⟨deed, none⟩))).setSock
      (n.sock.post (.frontEnd u i) (n.sock (.frontEnd u i))
        [n.letter (.frontEnd u i) ((n.home u).primary i) .handshake
          (n.hello reg u i deed.req)])) := by
  rw [h.post_ask]
  cases h.line u i with
  | asked ha => cases ha.call.symm.trans (hidle i)
  | answered hcall => cases hcall.symm.trans (hidle i)
  | talking hcall => cases hcall.symm.trans (hidle i)
  | idle _ hthread hfront hmine hpeer => ?_
  refine h.touch u i rfl rfl rfl (fun j hj ↦ rfl) (fun j hj ↦ by simp [hj]) (fun j hj ↦ rfl)
    (fun _ j hj ↦ absurd (hidle j) hj) (fun t _ _ _ h₄ _ ↦ Function.update_of_ne h₄ ..)
    (h.distinct.change rfl) ?_ (by simp) (fun w d c hc ↦ hc)
    (l := n.waiting ++ [((n.sock (.frontEnd u i)).own, handshake reg u i deed)]) ?_ ?_ ?_
    (fun v j _ _ ↦ rfl) fun ha hmine' ↦ ?_
  · intro t _
    by_cases h₄ : t = .server
    · subst h₄
      simp
    · simp [h₄]
  · simp [waiting]
  · intro p hp
    rcases List.mem_append.mp hp with hp | hp
    · exact .inl hp
    · rw [List.mem_singleton] at hp
      exact .inr (hp ▸ rfl)
  · intro v j hne
    simp [mine, h.frontEnd_ne hne]
  · have hmine'' : n.waiting.filter (·.1 = (n.sock (.frontEnd u i)).own) = [] := hmine
    refine .asked ⟨by rw [ha]; exact Function.update_self .., by rwa [ha], by simpa using hfront,
      ?_, by simpa using hpeer, hp.congr ?_ rfl⟩
    · rw [hmine', List.filter_append, hmine'']
      simp
    · show (Function.update n.home u _ u).client i = _
      rw [Function.update_self]
      rfl

theorem Sorted.post_listen (h : n.Sorted reg) (a : SockAddr) (hand : Handshake)
    (rest : List (SockAddr × Datagram sessionWire)) :
    n.sock.post .server (n.read .server a rest)
      [n.letter .server reg.replicaAddress .rmOperation ⟨.clientLogin⟩,
        n.letter .server reg.replicaAddress .handshake hand] =
      Function.update (Function.update n.sock .server (n.read .server a rest)) .replica
        ((n.sock .replica).hear [n.letter .server reg.replicaAddress .rmOperation ⟨.clientLogin⟩,
          n.letter .server reg.replicaAddress .handshake hand]) :=
  h.distinct.post_eq (by simp) rfl (by simp [letter, h.replica])

theorem Sorted.listen (h : n.Sorted reg) {a : SockAddr} {hand : Handshake}
    {rest : List (SockAddr × Datagram sessionWire)}
    (hunread : (n.sock .server).unread = some ((a, ⟨.handshake, hand⟩) :: rest)) :
    Sorted reg { n with
      sock := n.sock.post .server (n.read .server a rest)
        [n.letter .server reg.replicaAddress .rmOperation ⟨.clientLogin⟩,
          n.letter .server reg.replicaAddress .handshake hand]
      threads := n.threads ++ [(a, hand)] } := by
  obtain ⟨u, i, deed, ha, -⟩ :=
    h.asked (p := (a, ⟨.handshake, hand⟩)) (by simp [waiting, hunread])
  have hread : Sockets.Distinct (Function.update n.sock .server (n.read .server a rest)) :=
    h.distinct.change rfl
  rw [h.post_listen]
  refine h.touch u i (Function.update_eq_self ..).symm rfl rfl (fun j hj ↦ rfl) (fun j hj ↦ rfl)
    (fun j hj ↦ rfl) (fun _ j hj ↦ h.one u j i hj (by simp [ha.call])) ?_
    (hread.change (by simp)) ?_ (by simp [Net.read]) (fun w d c hc ↦ hc) (l := n.waiting)
    ?_ (fun p hp ↦ .inl hp) (fun v j _ ↦ rfl) (fun v j _ _ ↦ rfl) fun _ hmine' ↦ ?_
  · intro t _ _ _ h₄ h₅
    simp [h₄, h₅]
  · intro t _
    by_cases h₄ : t = .server
    · subst h₄
      simp [Net.read]
    · by_cases h₅ : t = .replica
      · subst h₅
        simp
      · simp [h₄, h₅]
  · simp [waiting, asArrived, hunread, Net.read]
  · refine (h.line u i).congr ⟨?_, ?_, ?_, rfl, rfl, rfl, hmine'⟩ ?_ fun _ ↦ rfl <;> simp [Net.read]

omit [DecidableEq υ] [DecidableEq ι] in
/-- A thread that has not treated its handshake yet knows the device. -/
theorem Sorted.found (h : n.Sorted reg) {a : SockAddr} {hand : Handshake}
    {l l' : List (SockAddr × Handshake)} (hthreads : n.threads = l ++ (a, hand) :: l') :
    ∃ u i deed c, n.Asking reg u i deed ∧ a = (n.sock (.frontEnd u i)).own ∧
      hand = ⟨deed.req, reg.name u, reg.number i, {}⟩ ∧
      n.server.LoggedIn hand.userid hand.device c ∧ c.handler.device = reg.number i ∧
      (n.sock (.handler u i)).own = ⟨reg.host, c.port.toUInt16⟩ := by
  obtain ⟨u, i, deed, ha, hp⟩ :=
    h.asked (p := (a, ⟨.handshake, hand⟩)) (by simp [waiting, asArrived, hthreads])
  obtain ⟨rfl, hhand⟩ := Prod.ext_iff.mp hp
  obtain rfl : hand = ⟨deed.req, reg.name u, reg.number i, {}⟩ := by simpa [handshake] using hhand
  obtain ⟨c, hc, hdevice, hport⟩ := h.loggedIn u i
  exact ⟨u, i, deed, c, ha, rfl, rfl, hc, hdevice, hport⟩

/-- The request handler that a thread finds is that of the device, and so is the front end that it
answers to. -/
theorem Sorted.post_treat (h : n.Sorted reg) {a : SockAddr} {hand : Handshake}
    {l l' : List (SockAddr × Handshake)} {out : List (SockAddr × Syn)} {c : ClientData}
    (hthreads : n.threads = l ++ (a, hand) :: l') (hout : n.server.Answers ⟨hand, a, {}⟩ out)
    (hc : n.server.LoggedIn hand.userid hand.device c)
    (hport : (n.sock (.handler u i)).own = ⟨reg.host, c.port.toUInt16⟩) :
    ∃ deed, n.Asking reg u i deed ∧ a = (n.sock (.frontEnd u i)).own ∧
      hand = ⟨deed.req, reg.name u, reg.number i, {}⟩ ∧
      (n.treated a hand l l' out).sock =
        Function.update n.sock (.frontEnd u i) { n.sock (.frontEnd u i) with
          unread := some [((n.sock .server).own, ⟨.syn, ⟨true, c.port, reg.number i⟩⟩)] } := by
  obtain ⟨v, j, deed, c', ha, haddr, hhand, hc', hdevice, hport'⟩ := h.found hthreads
  obtain rfl : c = c' := Option.some_inj.mp (hc.1.symm.trans hc'.1)
  cases h.distinct (hport.trans hport'.symm : (n.sock (.handler u i)).own = _)
  obtain rfl : out = [(a, ⟨true, c.port, reg.number i⟩)] := by
    have hanswer := Server.answers_device (v := ⟨hand, a, {}⟩) (Accounts.ne_zero_of_loggedIn hc)
      hc.1
    rw [hc.2, if_pos rfl, hdevice] at hanswer
    exact (Server.answers_iff hanswer).mp hout
  refine ⟨deed, ha, haddr, hhand, ?_⟩
  rw [treated, List.map_singleton, h.distinct.post_eq (m := .frontEnd u i) (by simp) rfl
    (by simp [letter, haddr]), Function.update_eq_self]
  simp [Socket.hear, ha.front, letter, haddr]

section Treated

variable {a : SockAddr} {hand : Handshake} {l l' : List (SockAddr × Handshake)}

/-- What waits at the server once the thread of a handshake has treated it. -/
def others (n : Net υ ι) (l l' : List (SockAddr × Handshake)) :
    List (SockAddr × Datagram sessionWire) :=
  asArrived l ++ (asArrived l' ++ (n.sock .server).unread.getD [])

omit [DecidableEq υ] [DecidableEq ι] in
theorem waiting_of_threads (hthreads : n.threads = l ++ (a, hand) :: l') :
    n.waiting = asArrived l ++ (a, ⟨.handshake, hand⟩) ::
      (asArrived l' ++ (n.sock .server).unread.getD []) := by
  simp [waiting, asArrived, hthreads]

omit [DecidableEq υ] [DecidableEq ι] in
theorem mem_waiting_of_mem_others (hthreads : n.threads = l ++ (a, hand) :: l')
    {p : SockAddr × Datagram sessionWire} (hp : p ∈ n.others l l') : p ∈ n.waiting := by
  rw [waiting_of_threads hthreads]
  rcases List.mem_append.mp hp with hp | hp
  · exact List.mem_append_left _ hp
  · exact List.mem_append_right _ (List.mem_cons_of_mem _ hp)

omit [DecidableEq υ] [DecidableEq ι] in
/-- A device whose handshake has been treated has no other one waiting. -/
theorem Asking.filter_others {deed : Deed} (ha : n.Asking reg u i deed)
    (hthreads : n.threads = l ++ (a, hand) :: l') (haddr : a = (n.sock (.frontEnd u i)).own)
    (hhand : hand = ⟨deed.req, reg.name u, reg.number i, {}⟩) :
    (n.others l l').filter (·.1 = (n.sock (.frontEnd u i)).own) = [] := by
  refine filter_eq_nil_of_cons (x := (a, ⟨.handshake, hand⟩)) ?_ (by simpa using haddr)
  rw [← waiting_of_threads hthreads, haddr, hhand]
  exact ha.mine

omit [DecidableEq υ] [DecidableEq ι] in
/-- The handshakes of the other devices still wait. -/
theorem filter_others_of_ne (hthreads : n.threads = l ++ (a, hand) :: l') {v : υ} {j : ι}
    (hne : a ≠ (n.sock (.frontEnd v j)).own) :
    (n.others l l').filter (·.1 = (n.sock (.frontEnd v j)).own) = n.mine v j := by
  simp [others, mine, waiting_of_threads hthreads, hne]

end Treated

theorem Sorted.treat (h : n.Sorted reg) {a : SockAddr} {hand : Handshake}
    {l l' : List (SockAddr × Handshake)} {out : List (SockAddr × Syn)} {c : ClientData}
    (hthreads : n.threads = l ++ (a, hand) :: l') (hout : n.server.Answers ⟨hand, a, {}⟩ out)
    (hc : n.server.LoggedIn hand.userid hand.device c)
    (hport : (n.sock (.handler u i)).own = ⟨reg.host, c.port.toUInt16⟩)
    (hclient : ∀ q ∈ (n.sock (.client u i)).unread, q = [])
    (hhandler : (n.sock (.handler u i)).unread = some []) :
    Sorted reg ((n.treated a hand l l' out).setHome u ((n.home u).setThread i
      (some (RequestHandler.handleRequest hand.reqType)))) := by
  obtain ⟨deed, ha, haddr, hhand, hpost⟩ := h.post_treat hthreads hout hc hport
  have hsock : ((n.treated a hand l l' out).setHome u ((n.home u).setThread i
      (some (RequestHandler.handleRequest hand.reqType)))).sock = _ := hpost
  have htables : Server.SameTables n.server (Server.leaves ⟨hand, a, {}⟩ n.server) :=
    Server.sameTables_leaves fun hlogin ↦ Accounts.ne_zero_of_loggedIn hc hlogin.1
  refine h.touch u i rfl rfl rfl (fun j hj ↦ rfl) (fun j hj ↦ rfl) (fun j hj ↦ by simp [hj])
    (fun _ j hj ↦ h.one u j i hj (by simp [ha.call])) ?_ ?_ ?_ ?_ ?_ (l := n.others l l') ?_
    (fun p hp ↦ .inl (mem_waiting_of_mem_others hthreads hp))
    (fun v j hne ↦ filter_others_of_ne hthreads (haddr ▸ h.frontEnd_ne hne))
    (fun v j _ _ ↦ rfl) fun ha' hmine' ↦ ?_
  · intro t _ _ h₃ _ _
    rw [hsock, Function.update_of_ne h₃]
  · rw [hsock]
    exact h.distinct.change rfl
  · intro t _
    rw [hsock]
    by_cases h₃ : t = .frontEnd u i
    · subst h₃
      simp
    · simp [h₃]
  · rw [hsock]
    simpa using h.server
  · intro w d c hc
    exact ⟨(htables.entry w).symm ▸ hc.1, hc.2⟩
  · rw [waiting, hsock]
    simp [others, treated, asArrived]
  · refine .answered (c := c) (by rw [ha']; exact ha.call)
      (by rw [ha']; exact Function.update_self ..) ?_ ?_
      (hmine'.trans (ha.filter_others hthreads haddr hhand)) ?_ ?_ ?_
      (RequestHandler.handleRequest_listens _) <;> rw [hsock]
    · simp
    · simpa using hport
    · simpa using ha.peer
    · simpa using hclient
    · simpa using hhandler

end Moves

end Net
end Bropdox
