import Bropdox.Handshakes
import Bropdox.Session.Letters
import Bropdox.Tenants

/-!
# The sockets of all sessions

`helpers/SocketHandler.hpp`, `client/FrontEnd.cpp`, `Server::listen` and `send_handshake`: how the
commands of all users get to the server and back.  A client has a front end, which sends the
handshakes to the primary server; the server gives each of them to a thread, which looks up the
request handler of the device, tells the client the port of it, and calls it.  From then on the
client talks over a socket of its own.

No socket belongs to a session.  A request handler begins with the address of the front end as its
peer and sends to whoever it has heard from last, so that it is important that it always listens
first (`handleRequest_listens`).  The session wire has no addresses, and whether it can do without
is the question of `Routing.lean` and `Channels.lean`.

All devices are logged in here; how that comes about is the subject of `Accounts.lean`.  What the
replica manager does with the handshakes it is told of is that of `LoginReplication.lean`.  As in
`Tenants.lean`, a user gives one command after the other, and a command is over when both sides are
done with it.
-/

set_option autoImplicit false

namespace Bropdox

open FileSystem Session Program SocketHandler

namespace RequestHandler

/-- **A request handler listens before it sends.** -/
theorem handleRequest_listens (req : Req) : (handleRequest req).Listens RequestHandler.body := by
  cases req with
  | sync => exact .call .wait
  | login => exact .ret _
  | close => exact .ret _
  | fe => exact .ret _
  | _ => exact .wait

end RequestHandler

/-- The sockets there are. -/
inductive Seat (υ ι : Type)
  /-- The socket of the server. -/
  | server
  /-- The socket of the server's replica manager. -/
  | replica
  /-- The socket of a request handler. -/
  | handler (u : υ) (i : ι)
  /-- `FrontEnd::sock_handler_server` -/
  | frontEnd (u : υ) (i : ι)
  /-- `FrontEnd::sock_handler_fe` -/
  | listener (u : υ) (i : ι)
  /-- `Client::sock_handler_req` -/
  | client (u : υ) (i : ι)
deriving DecidableEq

/-- The users, their devices, and where the server is. -/
structure Register (υ ι : Type) extends Roll υ where
  /-- The numbers of the devices. -/
  number : ι → UInt16
  /-- `Client::server` -/
  host : UInt32
  /-- `Server::replica_address` -/
  replicaAddress : SockAddr

/-- A command that a client is in the middle of. -/
structure Call where
  /-- The command that the client has been given. -/
  deed : Deed
  /-- The client, once its handshake has been answered. -/
  talks : Option (Endpoint sessionWire Client.sig Bool) := none

/-- A user, but for the sockets. -/
structure Home (ι : Type) where
  /-- The clients. -/
  client : ι → Client.Host
  /-- `Client::device` -/
  device : ι → UInt16
  /-- `FrontEnd::primary_address` -/
  primary : ι → SockAddr
  /-- What the clients are in the middle of. -/
  call : ι → Option Call
  /-- What is left to do for the threads that are in the request handlers. -/
  thread : ι → Option (RequestHandler.Prog Bool)

namespace Home

variable {ι : Type} [DecidableEq ι]

/-- A client is in another state. -/
@[simps] def setClient (a : Home ι) (i : ι) (h : Client.Host) : Home ι :=
  { a with client := Function.update a.client i h }

/-- The files of a device have changed. -/
def edit (a : Home ι) (i : ι) (m : Machine) : Home ι :=
  a.setClient i { a.client i with files := { (a.client i).files with machine := m } }

/-- A client has been told the number of its device. -/
@[simps] def setDevice (a : Home ι) (i : ι) (device : UInt16) : Home ι :=
  { a with device := Function.update a.device i device }

/-- A front end has been told where the primary server is. -/
@[simps] def changePrimary (a : Home ι) (i : ι) (address : SockAddr) : Home ι :=
  { a with primary := Function.update a.primary i address }

/-- A client is in the middle of something else. -/
@[simps] def setCall (a : Home ι) (i : ι) (call : Option Call) : Home ι :=
  { a with call := Function.update a.call i call }

/-- A request handler is in the middle of another program now. -/
@[simps] def setThread (a : Home ι) (i : ι) (thread : Option (RequestHandler.Prog Bool)) :
    Home ι :=
  { a with thread := Function.update a.thread i thread }

end Home

/-- The state of the network: the sockets, the machine and tables of the server, its threads, and
the users. -/
structure Net (υ ι : Type) where
  /-- The sockets. -/
  sock : Sockets (Seat υ ι) SockAddr sessionWire
  /-- The users. -/
  home : υ → Home ι
  /-- The tables of the server. -/
  server : Server
  /-- The request threads that have not treated their handshakes yet. -/
  threads : List (SockAddr × Handshake)
  /-- The machine of the server. -/
  store : Machine

namespace Net

variable {υ ι : Type}

/-- The household of a user. -/
def household (reg : Register υ ι) (n : Net υ ι) (u : υ) : Household ι where
  client := (n.home u).client
  socket i := (n.sock (.client u i)).inbox
  inbox i := (n.sock (.handler u i)).inbox
  server := userHost n.store (reg.name u)

/-- The socket a client goes on with after the answer to its handshake: the one that it has, or a
new one at an address that is free. -/
inductive Connects (reg : Register υ ι) (n : Net υ ι) (u : υ) (i : ι) (syn : Syn) :
    Socket SockAddr sessionWire → Prop
  | kept (h : (n.sock (.client u i)).unread ≠ none) : Connects reg n u i syn (n.sock (.client u i))
  | opened (h : (n.sock (.client u i)).unread = none) {a : SockAddr}
      (hfree : ∀ t, t ≠ .client u i → (n.sock t).own ≠ a) :
      Connects reg n u i syn ⟨a, ⟨reg.host, syn.port.toUInt16⟩, some []⟩

variable [DecidableEq υ] [DecidableEq ι]

/-- The home of a user is another one now. -/
@[simps] def setHome (n : Net υ ι) (u : υ) (a : Home ι) : Net υ ι :=
  { n with home := Function.update n.home u a }

/-- The sockets are others now. -/
@[simps] def setSock (n : Net υ ι) (sock : Sockets (Seat υ ι) SockAddr sessionWire) : Net υ ι :=
  { n with sock := sock }

/-- The first unread datagram of a socket has been read. -/
def read (n : Net υ ι) (t : Seat υ ι) (a : SockAddr)
    (rest : List (SockAddr × Datagram sessionWire)) : Socket SockAddr sessionWire :=
  { n.sock t with peer := a, unread := some rest }

/-- What a socket sends to an address. -/
def letter (n : Net υ ι) (t : Seat υ ι) (dest : SockAddr) (κ : Kind) (m : κ.Msg) :
    Letter SockAddr sessionWire := ⟨(n.sock t).own, dest, ⟨κ, m⟩⟩

/-- What `send_handshake` sends. -/
def hello (reg : Register υ ι) (n : Net υ ι) (u : υ) (i : ι) (req : Req) : Handshake :=
  ⟨req, reg.name u, (n.home u).device i, {}⟩

/-- The server after a thread has treated a handshake, and what it has sent. -/
def treated (n : Net υ ι) (a : SockAddr) (hand : Handshake) (l l' : List (SockAddr × Handshake))
    (out : List (SockAddr × Syn)) : Net υ ι :=
  { n with
    sock := n.sock.post .server (n.sock .server)
      (out.map fun p ↦ n.letter .server p.1 .syn p.2)
    server := Server.leaves ⟨hand, a, {}⟩ n.server
    threads := l ++ l' }

/-- One move of a client, of a thread of the server or of the server itself, with the deeds that it
completes. -/
inductive Move (reg : Register υ ι) : Net υ ι → List (υ × Household.Done ι) → Net υ ι → Prop
  /-- The files of a device change, while it is not in the middle of a command. -/
  | edit {n : Net υ ι} {u : υ} {i : ι} (hcall : (n.home u).call i = none) (m : Machine) :
      Move reg n [] (n.setHome u ((n.home u).edit i m))
  /-- The user gives a command, and the client sends a handshake. -/
  | ask {n : Net υ ι} {u : υ} {i : ι} {deed : Deed} (hidle : ∀ j, (n.home u).call j = none)
      (hp : (n.household reg u).Proper i deed) :
      Move reg n [] ((n.setHome u ((n.home u).setCall i (some ⟨deed, none⟩))).setSock
        (n.sock.post (.frontEnd u i) (n.sock (.frontEnd u i))
          [n.letter (.frontEnd u i) ((n.home u).primary i) .handshake (n.hello reg u i deed.req)]))
  /-- The server gives a handshake to a thread, and tells its replica manager of it. -/
  | listen {n : Net υ ι} {a : SockAddr} {hand : Handshake}
      {rest : List (SockAddr × Datagram sessionWire)}
      (hunread : (n.sock .server).unread = some ((a, ⟨.handshake, hand⟩) :: rest)) :
      Move reg n [] { n with
        sock := n.sock.post .server (n.read .server a rest)
          [n.letter .server reg.replicaAddress .rmOperation ⟨.clientLogin⟩,
            n.letter .server reg.replicaAddress .handshake hand]
        threads := n.threads ++ [(a, hand)] }
  /-- A thread answers a handshake and calls the request handler that it has found. -/
  | treat {n : Net υ ι} {a : SockAddr} {hand : Handshake} {l l' : List (SockAddr × Handshake)}
      {out : List (SockAddr × Syn)} {c : ClientData} {u : υ} {i : ι}
      (hthreads : n.threads = l ++ (a, hand) :: l') (hout : n.server.Answers ⟨hand, a, {}⟩ out)
      (hc : n.server.LoggedIn hand.userid hand.device c)
      (hport : (n.sock (.handler u i)).own = ⟨reg.host, c.port.toUInt16⟩)
      (hfree : (n.home u).thread i = none) :
      Move reg n [] ((n.treated a hand l l' out).setHome u ((n.home u).setThread i
        (some (RequestHandler.handleRequest hand.reqType))))
  /-- A thread answers a handshake and has no request handler to call. -/
  | dismiss {n : Net υ ι} {a : SockAddr} {hand : Handshake} {l l' : List (SockAddr × Handshake)}
      {out : List (SockAddr × Syn)} (hthreads : n.threads = l ++ (a, hand) :: l')
      (hout : n.server.Answers ⟨hand, a, {}⟩ out)
      (hno : ∀ c, ¬ n.server.LoggedIn hand.userid hand.device c) :
      Move reg n [] (n.treated a hand l l' out)
  /-- A client reads the answer to its handshake and goes on. -/
  | connect {n : Net υ ι} {u : υ} {i : ι} {deed : Deed} {a : SockAddr} {syn : Syn}
      {rest : List (SockAddr × Datagram sessionWire)} {s : Socket SockAddr sessionWire}
      (hcall : (n.home u).call i = some ⟨deed, none⟩)
      (hunread : (n.sock (.frontEnd u i)).unread = some ((a, ⟨.syn, syn⟩) :: rest))
      (hsyn : syn.confirmation = true) (hs : n.Connects reg u i syn s) :
      Move reg n [] ((n.setHome u (((n.home u).setDevice i syn.device).setCall i
          (some ⟨deed, some ⟨(n.home u).client i, deed.program⟩⟩))).setSock
        (Function.update (Function.update n.sock (.frontEnd u i)
          (n.read (.frontEnd u i) a rest)) (.client u i) s))
  /-- A client reads that it is refused. -/
  | refused {n : Net υ ι} {u : υ} {i : ι} {deed : Deed} {a : SockAddr} {syn : Syn}
      {rest : List (SockAddr × Datagram sessionWire)}
      (hcall : (n.home u).call i = some ⟨deed, none⟩)
      (hunread : (n.sock (.frontEnd u i)).unread = some ((a, ⟨.syn, syn⟩) :: rest))
      (hsyn : syn.confirmation = false) :
      Move reg n [] ((n.setHome u (((n.home u).setDevice i syn.device).setCall i none)).setSock
        (Function.update n.sock (.frontEnd u i) (n.read (.frontEnd u i) a rest)))
  /-- A client goes on. -/
  | left {n : Net υ ι} {u : υ} {i : ι} {deed : Deed} {e e' : Endpoint sessionWire Client.sig Bool}
      {s : Socket SockAddr sessionWire} {out : List (Letter SockAddr sessionWire)}
      (hcall : (n.home u).call i = some ⟨deed, some e⟩)
      (htalk : e.talk Client.body (n.sock (.client u i)) = some (e', s, out)) :
      Move reg n [] ((n.setHome u ((n.home u).setCall i (some ⟨deed, some e'⟩))).setSock
        (n.sock.post (.client u i) s out))
  /-- A request handler goes on. -/
  | right {n : Net υ ι} {u : υ} {i : ι} {r : RequestHandler.Prog Bool}
      {f : Endpoint sessionWire RequestHandler.sig Bool} {s : Socket SockAddr sessionWire}
      {out : List (Letter SockAddr sessionWire)} (hthread : (n.home u).thread i = some r)
      (htalk : Endpoint.talk RequestHandler.body ⟨userHost n.store (reg.name u), r⟩
        (n.sock (.handler u i)) = some (f, s, out)) :
      Move reg n [] { (n.setHome u ((n.home u).setThread i (some f.prog))).setSock
          (n.sock.post (.handler u i) s out) with
        store := f.host.machine }
  /-- A session ends when both sides are done. -/
  | leave {n : Net υ ι} {u : υ} {i : ι} {deed : Deed} {h : Client.Host} {b c : Bool}
      (hcall : (n.home u).call i = some ⟨deed, some ⟨h, .ret b⟩⟩)
      (hthread : (n.home u).thread i = some (.ret c)) :
      Move reg n [(u, ⟨i, deed, b⟩)]
        (n.setHome u ((((n.home u).setClient i h).setCall i none).setThread i none))
  /-- A front end is told of a new primary server. -/
  | redirect {n : Net υ ι} {u : υ} {i : ι} {a : SockAddr} {addr : Address}
      {rest : List (SockAddr × Datagram sessionWire)}
      (hunread : (n.sock (.listener u i)).unread = some ((a, ⟨.address, addr⟩) :: rest)) :
      Move reg n [] ((n.setHome u ((n.home u).changePrimary i addr.address)).setSock
        (Function.update n.sock (.listener u i) (n.read (.listener u i) a rest)))

/-- A run, with the deeds that have been completed. -/
inductive Run (reg : Register υ ι) : Net υ ι → List (υ × Household.Done ι) → Net υ ι → Prop
  | nil (n : Net υ ι) : Run reg n [] n
  | snoc {n n' n'' : Net υ ι} {tr ls : List (υ × Household.Done ι)} (hr : Run reg n tr n')
      (hm : Move reg n' ls n'') : Run reg n (tr ++ ls) n''

end Net
end Bropdox
