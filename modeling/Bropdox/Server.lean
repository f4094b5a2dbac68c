import Bropdox.FirstFree
import Bropdox.Messages
import Mathlib.Logic.Function.Basic

/-!
# The server

`server/PortManager.cpp`, `server/LoginManager.cpp` and `Server::treat_client_request`: who is
logged in on which device, and on which port its request handler listens.  Nobody calls `free_port`
or `logout` yet, so that the server itself only ever fills its tables.

## What is here

* `PortManager` and `LoginManager` are the two tables, plain values with their member functions as
  functions on them (`reservePort`, `freePort`, `reserveDevice`, `assign`, `clear` and so on).
* `Server` is the state that request threads use, and `Thread` a program over it that may be halted
  by an exception, or by a mutex that somebody holds.  A thread that throws leaves the state as it
  is at that point.
* `Surroundings` is what a thread meets outside the tables: whether a socket can be bound, what
  memory holds that no constructor writes, and how `handle_request` ends, which touches no table.
* `login`, `logout` and `treatClientRequest` are the functions of the source as such programs, with
  every `lock` and `unlock` where it stands there.
* `start` is the server after its constructor, which leaves one port to the replica manager.
-/

set_option autoImplicit false

namespace Bropdox

open FileSystem Slots

/-- `MAX_CONCURRENT_DEV` -/
def maxConcurrentDev : Nat := 2

/-- `MAXPORT` -/
def maxPort : UInt32 := 65535

/-! ## Ports

The port map, slot by slot. -/

/-- `PortManager` -/
structure PortManager where
  /-- `server_port` -/
  serverPort : UInt32
  /-- `port_map` -/
  portMap : List Bool

namespace PortManager

/-- The constructor. -/
def new (port : UInt32) : PortManager := ⟨port, List.replicate (maxPort - port).toNat false⟩

/-- `reserve_port`, between the two operations on its mutex. -/
def reservePort (m : PortManager) : UInt32 × PortManager :=
  match firstFree id m.portMap with
  | some i => (m.serverPort + .ofNat (i + 1), { m with portMap := m.portMap.set i true })
  | none => (0, m)

/-- `free_port`, which takes no lock.  What `.at` returns is a reference into the map. -/
def freePort (m : PortManager) (port : UInt32) : Except Exn Bool × PortManager :=
  let i := (m.serverPort - port - 1).toNat
  match m.portMap[i]? with
  | some true => (.ok true, { m with portMap := m.portMap.set i false })
  | some false => (.ok false, m)
  | none => (.error .outOfRange, m)

end PortManager

/-! ## Logins

The table of users, each with an array of devices. -/

/-- What a `RequestHandler` is given when it is constructed. -/
structure Handler where
  /-- The peer of `sock_handler`. -/
  clientAddress : SockAddr := {}
  /-- `port` -/
  port : UInt32 := 0
  /-- `device` -/
  device : UInt16 := 0
  /-- `client_id` -/
  clientId : Name := []
deriving DecidableEq

/-- `client_data_t`; the constructor without arguments only sets `initialized`. -/
structure ClientData where
  /-- `handler` -/
  handler : Handler := {}
  /-- `port` -/
  port : UInt32 := 0
  /-- `initialized` -/
  initialized : Bool := false
deriving DecidableEq

/-- `std::array<client_data_t, MAX_CONCURRENT_DEV>` -/
structure Devices where
  /-- The elements. -/
  slots : List ClientData := List.replicate maxConcurrentDev {}
  /-- The number of devices is fixed. -/
  length_slots : slots.length = maxConcurrentDev := by rfl

namespace Devices

/-- `.at(device - 1)`; device 0 gives an index that is out of range, too. -/
def at? (d : Devices) (device : UInt16) : Option ClientData :=
  if device = 0 then none else d.slots[device.toNat - 1]?

/-- Assign to the element at an index. -/
def set (d : Devices) (i : Nat) (data : ClientData) : Devices where
  slots := d.slots.set i data
  length_slots := by rw [List.length_set, d.length_slots]

/-- Write through what `.at(device - 1)` refers to. -/
def modify (d : Devices) (device : UInt16) (f : ClientData → ClientData) : Devices where
  slots := d.slots.modify (device.toNat - 1) f
  length_slots := by rw [List.length_modify, d.length_slots]

end Devices

/-- `LoginManager`, but for its mutexes. -/
structure LoginManager where
  /-- `users` -/
  users : Name → Option Devices := fun _ ↦ none

namespace LoginManager

/-- What `users[user_id]` refers to. -/
def entry (m : LoginManager) (userId : Name) : Devices := (m.users userId).getD {}

/-- `users[user_id] = d` -/
def setEntry (m : LoginManager) (userId : Name) (d : Devices) : LoginManager :=
  ⟨Function.update m.users userId (some d)⟩

/-- `reserve_device` -/
def reserveDevice (m : LoginManager) (userId : Name) : Except Exn UInt16 × LoginManager :=
  let d := m.entry userId
  match firstFree ClientData.initialized d.slots with
  | some i =>
    let device := UInt16.ofNat (i + 1)
    (.ok device, m.setEntry userId (d.modify device fun item ↦ { item with initialized := true }))
  | none => (.error .domainError, m.setEntry userId d)

/-- `users.at(user_id).at(device - 1) = data` -/
def assign (m : LoginManager) (userId : Name) (device : UInt16) (data : ClientData) :
    Except Exn Unit × LoginManager :=
  match m.users userId with
  | some d =>
    match d.at? device with
    | some _ => (.ok (), m.setEntry userId (d.modify device fun _ ↦ data))
    | none => (.error .outOfRange, m)
  | none => (.error .outOfRange, m)

/-- `get_client_data` -/
def getClientData (m : LoginManager) (userId : Name) (device : UInt16) :
    Except Exn ClientData × LoginManager :=
  let d := m.entry userId
  match d.at? device with
  | some data => (.ok data, m.setEntry userId d)
  | none => (.error .outOfRange, m.setEntry userId d)

/-- `users.at(user_id).at(device) = client_data_t()` -/
def clear (m : LoginManager) (userId : Name) (device : UInt16) :
    Except Exn Unit × LoginManager :=
  match m.users userId with
  | some d =>
    match d.slots[device.toNat]? with
    | some _ => (.ok (), m.setEntry userId (d.set device.toNat {}))
    | none => (.error .outOfRange, m)
  | none => (.error .outOfRange, m)

/-- `get_client_data(user_id, device).initialized = true` -/
def setInitialized (m : LoginManager) (userId : Name) (device : UInt16) :
    Except Exn Unit × LoginManager :=
  let d := m.entry userId
  match d.at? device with
  | some _ =>
    (.ok (), m.setEntry userId (d.modify device fun data ↦ { data with initialized := true }))
  | none => (.error .outOfRange, m.setEntry userId d)

end LoginManager

/-! ## Request threads

The functions that lock, throw and send. -/

/-- The mutexes of the two managers. -/
inductive Mutex
  /-- `m_login` -/
  | login
  /-- `m_map` -/
  | map
  /-- `m_port` -/
  | port
deriving DecidableEq

/-- `Server`, as far as its request threads use it. -/
structure Server where
  /-- `login_manager` -/
  logins : LoginManager := {}
  /-- `port_manager` -/
  ports : PortManager
  /-- The mutexes that are locked. -/
  held : Mutex → Bool := fun _ ↦ false
  /-- What has been sent, and to whom. -/
  sent : List (SockAddr × Syn) := []

/-- Why a thread does not go on. -/
inductive Halt
  /-- An exception escapes from it, which ends the whole process. -/
  | escaped (e : Exn)
  /-- The thread waits for ever. -/
  | blocked
deriving DecidableEq

/-- What a request thread meets outside the tables of the server. -/
structure Surroundings where
  /-- What the constructor of the request handler throws, if it does. -/
  construct : Option Exn := none
  /-- What is found where `client_data_t(RequestHandler&&, port_t)` leaves `initialized` unset. -/
  unset : Bool := false
  /-- How `handle_request` ends. -/
  handled : Except Halt Bool := .ok true

/-- A program over the state of the server. -/
abbrev Thread := EStateM Halt Server

namespace Server

/-- `lock` -/
def lock (m : Mutex) : Thread Unit := do
  let s ← get
  if s.held m then throw .blocked
  else set { s with held := Function.update s.held m true }

/-- `unlock` -/
def unlock (m : Mutex) : Thread Unit :=
  modify fun s ↦ { s with held := Function.update s.held m false }

/-- Call a member function of `login_manager`. -/
def onLogins {α : Type} (f : LoginManager → Except Exn α × LoginManager) : Thread α := do
  let s ← get
  let r := f s.logins
  set { s with logins := r.2 }
  match r.1 with
  | .ok a => pure a
  | .error e => throw (.escaped e)

/-- `port_manager.reserve_port()` -/
def reservePort : Thread UInt32 := do
  lock .port
  let s ← get
  let r := s.ports.reservePort
  set { s with ports := r.2 }
  unlock .port
  return r.1

/-- The constructor of a request handler. -/
def construct (env : Surroundings) (clientAddress : SockAddr) (port : UInt32) (device : UInt16)
    (clientId : Name) : Thread Handler :=
  match env.construct with
  | none => pure ⟨clientAddress, port, device, clientId⟩
  | some e => throw (.escaped e)

/-- `login_manager.login(...)` -/
def login (env : Surroundings) (userId : Name) (userAddress : SockAddr) (port : UInt32) :
    Thread UInt16 := do
  lock .login
  let device ← onLogins (·.reserveDevice userId)
  unlock .login
  let rh ← construct env userAddress port device userId
  lock .map
  onLogins (·.assign userId device ⟨rh, port, env.unset⟩)
  unlock .map
  onLogins (·.setInitialized userId device)
  return device

/-- `login_manager.logout(...)`, which nothing calls. -/
def logout (userId : Name) (device : UInt16) : Thread Bool := do
  if device.toNat > maxConcurrentDev ∨ device = 0 then throw (.escaped .invalidArgument)
  lock .map
  onLogins (·.clear userId device)
  unlock .map
  return true

/-- `send_packet(&syn, client_addr)` -/
def sendSyn (clientAddr : SockAddr) (syn : Syn) : Thread Unit :=
  modify fun s ↦ { s with sent := s.sent ++ [(clientAddr, syn)] }

/-- `handle_request` -/
def handleRequest (env : Surroundings) : Thread Bool :=
  match env.handled with
  | .ok b => pure b
  | .error h => throw h

/-- `treat_client_request` -/
def treatClientRequest (env : Surroundings) (hand : Handshake) (clientAddr : SockAddr) :
    Thread Unit := do
  if hand.device = 0 then
    if hand.reqType = .login then
      let reservedPort ← reservePort
      let device ← login env hand.userid clientAddr reservedPort
      sendSyn clientAddr ⟨true, reservedPort, device⟩
    else sendSyn clientAddr ⟨false, 0, 0⟩
  else
    let user ← onLogins (·.getClientData hand.userid hand.device)
    if !user.initialized then sendSyn clientAddr ⟨false, 0, 0⟩
    else
      sendSyn clientAddr ⟨true, user.port, user.handler.device⟩
      discard (handleRequest env)

/-- The constructor, which leaves one port to the replica manager. -/
def start (port : UInt32) : Server where
  ports := (PortManager.new port).reservePort.2

end Server
end Bropdox
