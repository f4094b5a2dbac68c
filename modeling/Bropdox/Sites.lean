import Bropdox.LoginOrder
import Bropdox.Members
import Bropdox.Session.Solo

/-!
# A primary and its backups

Every replica runs a server and a replica manager, each with a socket of its own.  A handshake that
reaches the server of the primary is forwarded to its replica manager, which sends it to those of
the backups; they send it on to their servers, who handle it like the login of a client, forward it
as well, and answer.

## What is here

* `Place` is a socket of a replica, `Site` a replica and `Sites` all of them; `Network` says how
  they are set up: every backup has joined, and nobody else has.
* `Happening` is what may happen and `Sites.step` what comes of it.  The moves are as small as they
  are in the source: a replica manager makes one move of `listen` at a time, a server sends the two
  datagrams of a forwarded handshake one after the other, and the threads of the logins run as in
  `LoginThreads.lean`.
* `letters` and `calls` are what of some sent datagrams arrives at a replica manager and at a
  server, and `send_apply` says that each is where it belongs, behind what the same sender sent
  before.  A socket hears from each sender in order, and from different senders in any order.
* `ReplicaManager.Control` are the points at which a replica manager waits while it deals with a
  login, and `ReplicaManager.Hears` what it does when it reads a datagram there; the lemmas
  `hears_*` are the cases, each from the program of `listen`.
-/

set_option autoImplicit false

namespace Bropdox

open FileSystem Session Program ReplicaManager

/-- A socket of a replica; `none` is the primary. -/
inductive Place (ι : Type)
  /-- The socket of the server. -/
  | server (w : Option ι)
  /-- The socket of the replica manager. -/
  | manager (w : Option ι)
deriving DecidableEq

/-- The socket is that of the replica manager of a backup. -/
def Place.ofBackup {ι : Type} : Place ι → Bool
  | .manager w => w.isSome
  | .server _ => false

/-- A replica. -/
structure Site (ι : Type) where
  /-- The replica manager. -/
  manager : Endpoint groupWire sig Unit
  /-- What has arrived at its socket, by who sent it. -/
  inbox : Place ι → List (Datagram groupWire) := fun _ ↦ []
  /-- The handshakes that have arrived at the server. -/
  handshakes : List (Handshake × SockAddr) := []
  /-- The handshake of which the server has only announced that it forwards it. -/
  forwarding : Option (Handshake × SockAddr) := none
  /-- The server, with the threads of its logins. -/
  server : Threaded

/-- All replicas. -/
abbrev Sites (ι : Type) := Option ι → Site ι

/-- How the replicas are set up: every backup has joined, and nobody else has. -/
structure Network (ι : Type) [DecidableEq ι] where
  /-- The address of a socket. -/
  address : Place ι → SockAddr
  /-- Whose address it is. -/
  place : SockAddr → Option (Place ι)
  /-- Addresses are different. -/
  place_address : ∀ p, place (address p) = some p
  /-- The replica managers. -/
  host : Option ι → Host
  /-- The replica managers know their own address. -/
  ownAddress : ∀ w, (host w).ownAddress = address (.manager w)
  /-- The replica managers know the address of their server. -/
  serverAddress : ∀ w, (host w).serverAddress = address (.server w)
  /-- One of the replica managers is the primary. -/
  primary : ∀ w, (host w).primary = w.isNone
  /-- The group of the primary consists of the backups. -/
  joined : ∀ p, ((host none).group.values.map place).count (some p) = if p.ofBackup then 1 else 0

/-- What may happen to the replicas. -/
inductive Happening (ι : Type)
  /-- A login of a client reaches the primary. -/
  | client (hand : Handshake) (clientAddr : SockAddr)
  /-- A server takes the next handshake, and announces it to its replica manager. -/
  | accept (w : Option ι)
  /-- A server forwards the handshake to its replica manager and creates the thread. -/
  | forward (w : Option ι)
  /-- A thread of a server makes its next step. -/
  | advance (w : Option ι) (i : Nat) (unset : Bool)
  /-- A replica manager makes its next move; where it reads, it reads what this sender sent. -/
  | manage (w : Option ι) (sender : Place ι)

/-- The handshake is that of a login. -/
def Handshake.IsLogin (hand : Handshake) : Prop := hand.device = 0 ∧ hand.reqType = .login

instance (hand : Handshake) : Decidable hand.IsLogin := inferInstanceAs (Decidable (_ ∧ _))

/-- An operation as a datagram. -/
abbrev operation (req : ServReq) : Datagram groupWire := ⟨Kind.rmOperation, ⟨req⟩⟩

/-- A handshake as a datagram. -/
abbrev handshake (hand : Handshake) : Datagram groupWire := ⟨Kind.handshake, hand⟩

namespace Sites

variable {ι : Type} [DecidableEq ι]

section Model

variable (net : Network ι) (read : Reading groupWire)

/-- A datagram arrives. -/
def post (sender : Place ι) (s : Sites ι) (p : Parcel groupWire) : Sites ι :=
  match net.place p.1 with
  | some (.manager v) =>
    Function.update s v { s v with
      inbox := Function.update (s v).inbox sender ((s v).inbox sender ++ [p.2]) }
  | some (.server v) =>
    match read .handshake p.2 with
    | some hand =>
      Function.update s v { s v with
        handshakes := (s v).handshakes ++ [(hand, net.address sender)] }
    | none => s
  | none => s

/-- What has been sent arrives. -/
def send (sender : Place ι) (s : Sites ι) (ps : List (Parcel groupWire)) : Sites ι :=
  ps.foldl (post net read sender) s

/-- The answers a thread has sent. -/
def answers (t t' : Threaded) : List (Parcel groupWire) :=
  (t'.server.sent.drop t.server.sent.length).map fun x ↦ (x.1, ⟨Kind.syn, x.2⟩)

/-- The replicas after a move, if it is possible. -/
def step (s : Sites ι) : Happening ι → Option (Sites ι)
  | .client hand clientAddr =>
    if hand.IsLogin ∧ net.place clientAddr = none then
      some (Function.update s none { s none with
        handshakes := (s none).handshakes ++ [(hand, clientAddr)] })
    else none
  | .accept w =>
    match (s w).forwarding, (s w).handshakes with
    | none, x :: rest =>
      some (send net read (.server w)
        (Function.update s w { s w with handshakes := rest, forwarding := some x })
        [(net.address (.manager w), operation .clientLogin)])
    | _, _ => none
  | .forward w => do
    let x ← (s w).forwarding
    let server ← (s w).server.step (.arrive x.1.userid x.2)
    return send net read (.server w) (Function.update s w { s w with forwarding := none, server })
      [(net.address (.manager w), handshake x.1)]
  | .advance w i unset => do
    let server ← (s w).server.step (.advance i unset)
    return send net read (.server w) (Function.update s w { s w with server })
      (answers (s w).server server)
  | .manage w sender => do
    let (manager, inbox, out) ← (s w).manager.step read body
      (some ((s w).inbox sender |>.map fun d ↦ (net.address sender, d)))
    return send net read (.manager w) (Function.update s w { s w with
      manager
      inbox := Function.update (s w).inbox sender ((inbox.getD []).map Prod.snd) }) out

/-- Nobody has logged in yet. -/
def start (port : UInt32) : Sites ι := fun w ↦
  { manager := ⟨net.host w, listen⟩, server := .start port }

end Model
end Sites

namespace Threaded

variable {s s' : Threaded} {i : Nat} {unset : Bool} {t : LoginThread}

/-- What a step of a thread sends is for the client of a thread. -/
theorem exists_sent (hs : s.step (.advance i unset) = some s') :
    ∃ ds, s'.server.sent = s.server.sent ++ ds ∧
      ∀ x ∈ ds, ∃ t ∈ s.threads, t.clientAddr = x.1 := by
  obtain ⟨t, ph, server, hi, hadv, rfl⟩ := step_advance_iff.mp hs
  cases ht : t.phase with
  | initialized q device =>
    simp only [LoginThread.advance, ht, Option.some.injEq, Prod.mk.injEq] at hadv
    obtain ⟨-, rfl⟩ := hadv
    refine ⟨_, rfl, fun x hx ↦ ⟨t, List.mem_of_getElem? hi, ?_⟩⟩
    rw [List.mem_singleton.mp hx]
  | created =>
    simp only [LoginThread.advance, ht, Option.some.injEq, Prod.mk.injEq] at hadv
    obtain ⟨-, rfl⟩ := hadv
    exact ⟨[], (List.append_nil _).symm, List.forall_mem_nil _⟩
  | ported q =>
    obtain ⟨k, -, -, rfl⟩ := LoginThread.exists_of_advance_ported ht hadv
    exact ⟨[], (List.append_nil _).symm, List.forall_mem_nil _⟩
  | reserved q device =>
    simp only [LoginThread.advance, ht] at hadv
    split at hadv <;> cases hadv
    exact ⟨[], (List.append_nil _).symm, List.forall_mem_nil _⟩
  | assigned q device =>
    simp only [LoginThread.advance, ht] at hadv
    split at hadv <;> cases hadv
    exact ⟨[], (List.append_nil _).symm, List.forall_mem_nil _⟩
  | answered q device =>
    simp only [LoginThread.advance, ht] at hadv
    cases hadv

/-- The threads stay those of the same clients. -/
theorem exists_of_mem_step (hs : s.step (.advance i unset) = some s') (ht : t ∈ s'.threads) :
    ∃ t₀ ∈ s.threads, t₀.clientAddr = t.clientAddr := by
  obtain ⟨t₁, ph, server, hi, -, rfl⟩ := step_advance_iff.mp hs
  obtain ⟨j, hj⟩ := List.mem_iff_getElem?.mp ht
  have hj : HasThread ⟨server, s.setPhase i ph⟩ j t := hj
  rw [hasThread_setPhase hi] at hj
  split at hj
  · exact ⟨t₁, List.mem_of_getElem? hi, by rw [hj]⟩
  · exact ⟨t, List.mem_of_getElem? hj, rfl⟩

theorem users_step (hs : s.step (.advance i unset) = some s') : s'.users = s.users := by
  obtain ⟨t, ph, server, hi, -, rfl⟩ := step_advance_iff.mp hs
  exact users_setPhase hi

end Threaded

namespace Sites

variable {ι : Type} [DecidableEq ι]

/-! ## Where datagrams arrive

The queues after something has been sent, seen by those who read them. -/

section Arriving

variable {net : Network ι} {read : Reading groupWire} {s : Sites ι} {sender : Place ι}
  {v w : Option ι} {ps ps' : List (Parcel groupWire)} {d : Datagram groupWire}

/-- What of some sent datagrams arrives at a replica manager. -/
def letters (net : Network ι) (v : Option ι) (ps : List (Parcel groupWire)) :
    List (Datagram groupWire) :=
  (ps.filter fun p ↦ net.place p.1 = some (.manager v)).map Prod.snd

/-- What of this arrives at a server. -/
def calls (net : Network ι) (read : Reading groupWire) (sender : Place ι) (v : Option ι)
    (ps : List (Parcel groupWire)) : List (Handshake × SockAddr) :=
  (ps.filter fun p ↦ net.place p.1 = some (.server v)).filterMap fun p ↦
    (read .handshake p.2).map (·, net.address sender)

theorem letters_append : letters net v (ps ++ ps') = letters net v ps ++ letters net v ps' := by
  rw [letters, List.filter_append, List.map_append, letters, letters]

theorem calls_append :
    calls net read sender v (ps ++ ps') =
      calls net read sender v ps ++ calls net read sender v ps' := by
  rw [calls, List.filter_append, List.filterMap_append, calls, calls]

@[simp] theorem letters_nil : letters net v [] = [] := rfl

@[simp] theorem calls_nil : calls net read sender v [] = [] := rfl

theorem letters_manager :
    letters net v [(net.address (.manager w), d)] = if v = w then [d] else [] := by
  by_cases h : v = w
  · simp [letters, net.place_address, h]
  · simp [letters, net.place_address, h, Ne.symm h]

theorem calls_manager : calls net read sender v [(net.address (.manager w), d)] = [] := by
  simp [calls, net.place_address]

theorem calls_server (hread : Faithful read) {hand : Handshake} :
    calls net read sender v [(net.address (.server w), handshake hand)] =
      if v = w then [(hand, net.address sender)] else [] := by
  by_cases h : v = w
  · simp [calls, net.place_address, h, hread.right Kind.handshake hand]
  · simp [calls, net.place_address, h, Ne.symm h]

theorem letters_server : letters net v [(net.address (.server w), d)] = [] := by
  simp [letters, net.place_address]

/-- **What has been sent is where it belongs**, behind what the same sender sent before. -/
theorem send_apply : send net read sender s ps v = { s v with
    inbox := Function.update (s v).inbox sender ((s v).inbox sender ++ letters net v ps)
    handshakes := (s v).handshakes ++ calls net read sender v ps } := by
  induction ps generalizing s with
  | nil => simp [send]
  | cons p ps ih =>
    rw [← List.singleton_append, letters_append, calls_append]
    rw [send, List.singleton_append, List.foldl_cons, ← send, ih, post]
    cases hp : net.place p.1 with
    | none => simp [letters, calls, hp]
    | some q =>
      cases q with
      | manager w =>
        by_cases hv : v = w
        · subst hv
          simp [letters, calls, hp]
        · simp [letters, calls, hp, hv, Ne.symm hv]
      | server w =>
        cases hr : read .handshake p.2 with
        | none =>
          by_cases hv : v = w <;> simp [letters, calls, hp, hv, hr]
        | some hand =>
          by_cases hv : v = w
          · subst hv
            simp [letters, calls, hp, hr]
          · simp [letters, calls, hp, hv, Ne.symm hv]

end Arriving

end Sites

/-! ## What a replica manager does with a login

The program of `listen` at the points where it waits: what is read, what is sent then, and where it
waits next. -/

namespace ReplicaManager

/-- Where the replica manager waits. -/
inductive Control
  /-- For the next operation. -/
  | listening
  /-- For the handshake its server forwards. -/
  | handed
  /-- For the handshake the primary propagates. -/
  | propagated
  /-- For the answer its server sends. -/
  | dummySyn
deriving DecidableEq

/-- Send a propagated handshake on. -/
def passOn (server : SockAddr) : Option Handshake → Prog Unit
  | some hand => sendTo server .handshake hand
  | none => pure ()

/-- What is left to do where the replica manager waits. -/
def Control.prog (h : Host) : Control → Prog Unit
  | .listening => listen
  | .handed => clientLogin.bind fun _ ↦ callListen
  | .propagated => (waitPacket .handshake).bind fun hand ↦
    (passOn h.serverAddress hand).bind fun _ ↦ callListen
  | .dummySyn => (waitPacket .syn).bind fun _ ↦ callListen

/-- The kind of datagram that the replica manager waits for. -/
def Control.kind : Control → Kind
  | .listening => .rmOperation
  | .handed | .propagated => .handshake
  | .dummySyn => .syn

/-- The replica manager reads a datagram, sends something, and waits again. -/
def Hears (h : Host) (c : Control) (m : c.kind.Msg) (out : List (Parcel groupWire)) (c' : Control) :
    Prop :=
  ∃ k, c.prog h = .wait c.kind k ∧
    ∀ a, Endpoint.Says body ⟨h, k (some (a, m))⟩ out ⟨h, c'.prog h⟩

variable {h : Host}

theorem says_of_eq {p q : Prog Unit} (hpq : p = q) : Endpoint.Says body ⟨h, p⟩ [] ⟨h, q⟩ :=
  hpq ▸ .refl _

/-- Back to `listen`. -/
theorem says_callListen : Endpoint.Says body ⟨h, callListen⟩ [] ⟨h, Control.prog h .listening⟩ :=
  .silent (fun _ ↦ rfl) (by rw [bind_ret]; exact .refl _)

/-- The handshake its server forwards is read. -/
theorem hears_handshake {hand : Handshake} {out : List (Parcel groupWire)} {c' : Control}
    {k : Option Handshake → Prog Unit} (hk : clientLogin = (waitPacket .handshake).bind k)
    (hs : Endpoint.Says body ⟨h, (k (some hand)).bind fun _ ↦ callListen⟩ out ⟨h, c'.prog h⟩) :
    Hears h .handed hand out c' :=
  ⟨_, by rw [Control.prog, hk, Program.bind_assoc]; rfl, fun _ ↦ hs⟩

/-- The wait it starts with. -/
theorem hears_operation {req : ServReq} {out : List (Parcel groupWire)} {c' : Control}
    (hk : ∀ a, Endpoint.Says body ⟨h, (serve a req).bind fun on ↦
      if on then callListen else pure ()⟩ out ⟨h, c'.prog h⟩) :
    Hears h .listening ⟨req⟩ out c' :=
  ⟨_, rfl, hk⟩

theorem hears_clientLogin : Hears h .listening ⟨.clientLogin⟩ [] .handed := by
  refine hears_operation fun a ↦ ?_
  rw [serve, bind_eq, Program.bind_assoc]
  exact .refl _

theorem hears_propagateLogin (hprimary : h.primary = false) :
    Hears h .listening ⟨.propagateLogin⟩ [] .propagated := by
  refine hears_operation fun a ↦ ?_
  rw [serve, bind_eq, Program.bind_assoc]
  refine Members.says_get (says_of_eq ?_)
  rw [hprimary, Control.prog]
  simp only [Bool.not_false, if_true, bind_eq, Program.bind_assoc]
  congr 2
  funext hand
  cases hand <;> rfl

/-- The primary propagates a login to the group. -/
theorem hears_handshake_primary (hprimary : h.primary = true) {hand : Handshake}
    (hlogin : hand.IsLogin) : Hears h .handed hand
      (Members.toAll .rmOperation ⟨.propagateLogin⟩ h.group.values ++
        Members.toAll .handshake hand h.group.values) .listening := by
  have hreq : hand.reqType ≠ .fe := fun hfe ↦ Req.noConfusion (hfe.symm.trans hlogin.2)
  refine hears_handshake rfl ?_
  simp only [bind_eq, Program.bind_assoc]
  refine Members.says_get ?_
  simp only [if_pos hprimary, expect_some, ret_bind, if_neg hreq, if_pos hlogin.2,
    Program.bind_assoc]
  refine Members.says_multicast ?_
  rw [← List.append_nil (Members.toAll .handshake hand h.group.values)]
  exact Members.says_multicast says_callListen

/-- A backup expects an answer. -/
theorem hears_handshake_backup (hprimary : h.primary = false) {hand : Handshake} :
    Hears h .handed hand [] .dummySyn := by
  refine hears_handshake rfl ?_
  simp only [bind_eq, Program.bind_assoc]
  refine Members.says_get (says_of_eq ?_)
  rw [hprimary]
  rfl

/-- A backup reads the answer of its server. -/
theorem hears_syn {syn : Syn} : Hears h .dummySyn syn [] .listening :=
  ⟨_, rfl, fun _ ↦ says_callListen⟩

/-- A backup sends the handshake to its server. -/
theorem hears_handshake_propagated {hand : Handshake} :
    Hears h .propagated hand [(h.serverAddress, handshake hand)] .listening :=
  ⟨_, rfl, fun _ ↦ .emit says_callListen⟩

theorem Control.prog_eq_wait (h : Host) (c : Control) : ∃ k, c.prog h = .wait c.kind k := by
  cases c <;> exact ⟨_, rfl⟩

/-- The move that reads. -/
theorem Hears.step {c c' : Control} {m : c.kind.Msg} {out : List (Parcel groupWire)}
    (hears : Hears h c m out c') {read : Reading groupWire} (hread : Faithful read) (a : SockAddr)
    (rest : List (Parcel groupWire)) :
    ∃ e', Endpoint.step read body ⟨h, c.prog h⟩ (some ((a, ⟨c.kind, m⟩) :: rest)) =
        some (e', some rest, []) ∧ Endpoint.Says body e' out ⟨h, c'.prog h⟩ := by
  obtain ⟨k, hk, hs⟩ := hears
  refine ⟨_, ?_, hs a⟩
  rw [hk, Endpoint.step, hread.right]
  rfl

end ReplicaManager
end Bropdox
