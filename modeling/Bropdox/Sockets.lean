import Bropdox.Handles
import Bropdox.Messages
import Bropdox.Runs
import Mathlib.Data.Finset.Lattice.Lemmas

/-!
# Who closes which socket

`helpers/SocketHandler.cpp` as far as it is about the descriptor: the constructors, the two moves
and the destructor.  An object is constructed in memory that held something before, and a
constructor that does not initialise a member leaves it at that (`SocketHandler() {}` leaves them
all).

## What is here

* `SocketHandler` is the members of an object, and `ofServer`, `ofPeer`, `ofPort`, `ofBoth`,
  `movedFrom`, `assignedFrom` and `destroy` are the constructors, moves and the destructor, each as
  code that works on the open descriptors (`Sys`).  How the system calls come out is `Calls`.
* `Process` is the living objects and the open descriptors.  Its moves (`SocketOp`) are those of the
  objects and those of the rest of the program, which opens and closes descriptors of its own.
* `Process.Sane` says that the books are right, in the sense of `Handles.Accounted`: nothing is
  closed that is not open, nor twice, nor behind the back of its owner, and the sockets that nobody
  will close are those of `Ctor.loses`.  A constructor that throws loses its socket, unless it is
  the one that delegates to another, whose object is already alive and gets destroyed.
* `Ctor.Ends` is the one case analysis of the constructors that everything else uses, and the lemmas
  `Sane.dispose`, `Sane.handOver`, `Sane.lose`, `Sane.appear` and `Sane.acquire` are the ways in
  which an operation changes the books.
* `sockets_accounted`: a run keeps the books if and only if no object is made by the default
  constructor in memory that holds a positive number in the place of `sockfd`.
-/

set_option autoImplicit false

namespace Bropdox

open Handles (Accounted)

/-- What the constructors throw. -/
inductive SocketError
  /-- `bdu::socket_bad_create` -/
  | badCreate
  /-- `bdu::socket_bad_bind` -/
  | badBind
deriving DecidableEq

/-- The open descriptors: the sockets the handlers have created, and all others. -/
structure Descriptors where
  /-- The sockets. -/
  sockets : Finset Nat
  /-- The descriptors of the rest of the program. -/
  others : Finset Nat

/-- `socket` -/
def Descriptors.create (t : Descriptors) (fd : Nat) : Descriptors :=
  { t with sockets := insert fd t.sockets }

/-- `close`, which does not know whose descriptor it is. -/
def Descriptors.close (t : Descriptors) (fd : Int) : Descriptors :=
  ⟨t.sockets.erase fd.toNat, t.others.erase fd.toNat⟩

/-- How the system calls of a constructor come out. -/
structure Calls where
  /-- The descriptor that `socket` returns, unless it fails. -/
  socket : Option Nat
  /-- Whether `bind` succeeds. -/
  bind : Bool

/-- Code that works on the open descriptors. -/
abbrev Sys := ExceptT SocketError (StateM Descriptors)

/-- The members of a `SocketHandler`. -/
structure SocketHandler where
  /-- `sockfd` -/
  sockfd : Int
  /-- `peer_len` -/
  peerLen : UInt32
  /-- `handler_address` -/
  handlerAddress : SockAddr
  /-- `peer_address` -/
  peerAddress : SockAddr

namespace SocketHandler

/-- `sizeof(struct sockaddr_in)` -/
def addressSize : UInt32 := 16

/-- The call of `socket` in the two functions below. -/
def openSocket (calls : Calls) : Sys Int :=
  match calls.socket with
  | some fd => do
    modify fun t ↦ t.create fd
    return fd
  | none => throw .badCreate

/-- `init_server_socket`; `htons` takes 16 bits. -/
def initServerSocket (calls : Calls) (port : UInt32) : Sys (Int × SockAddr) := do
  let socketId ← openSocket calls
  return (socketId, ⟨0, port.toUInt16⟩)

/-- `init_client_socket` -/
def initClientSocket (calls : Calls) (port server : UInt32) : Sys (Int × SockAddr) := do
  let socketId ← openSocket calls
  return (socketId, ⟨server, port.toUInt16⟩)

/-- The call of `bind` in the constructors. -/
def bindSocket (calls : Calls) : Sys Unit := if calls.bind then pure () else throw .badBind

/-- `SocketHandler(port, server)` -/
def ofServer (memory : SocketHandler) (calls : Calls) (port server : UInt32) :
    Sys SocketHandler := do
  let (sockfd, peerAddress) ← initClientSocket calls port server
  return { memory with sockfd, peerLen := addressSize, peerAddress }

/-- `SocketHandler(port, peer_address_p)` -/
def ofPeer (memory : SocketHandler) (calls : Calls) (port : UInt32) (peerAddress : SockAddr) :
    Sys SocketHandler := do
  let (sockfd, handlerAddress) ← initServerSocket calls port
  bindSocket calls
  return { memory with sockfd, peerLen := addressSize, handlerAddress, peerAddress }

/-- `SocketHandler(port)` -/
def ofPort (memory : SocketHandler) (calls : Calls) (port : UInt32) : Sys SocketHandler := do
  let (sockfd, handlerAddress) ← initServerSocket calls port
  bindSocket calls
  return { memory with sockfd, peerLen := addressSize, handlerAddress }

/-- The destructor. -/
def destroy (h : SocketHandler) : Sys Unit :=
  if h.sockfd > 0 then modify fun t ↦ t.close h.sockfd else pure ()

/-- `SocketHandler(port, server, flag)`, which delegates to `SocketHandler(port, server)`: what its
own body throws destroys the object. -/
def ofBoth (memory : SocketHandler) (calls : Calls) (port server : UInt32) :
    Sys SocketHandler := do
  let h ← ofServer memory calls port server
  let h := { h with handlerAddress := ⟨0, port.toUInt16⟩ }
  try
    bindSocket calls
  catch e =>
    destroy h
    throw e
  return h

/-- The descriptor that the destructor would close. -/
def descriptor (h : SocketHandler) : Option Nat :=
  if h.sockfd > 0 then some h.sockfd.toNat else none

/-- `move`, after `SocketHandler(SocketHandler&& move)` -/
def movedFrom (move : SocketHandler) : SocketHandler := { move with sockfd := -1 }

/-- `move`, after `operator=(SocketHandler&& move)` -/
def assignedFrom (_move : SocketHandler) : SocketHandler := ⟨-1, 0, {}, {}⟩

end SocketHandler

/-- The constructors that make an object out of nothing. -/
inductive Ctor
  | ofServer (calls : Calls) (port server : UInt32)
  | ofPeer (calls : Calls) (port : UInt32) (peerAddress : SockAddr)
  | ofPort (calls : Calls) (port : UInt32)
  | ofBoth (calls : Calls) (port server : UInt32)
  | default

namespace Ctor

/-- What a constructor does. -/
def run (memory : SocketHandler) : Ctor → Sys SocketHandler
  | ofServer calls port server => SocketHandler.ofServer memory calls port server
  | ofPeer calls port peerAddress => SocketHandler.ofPeer memory calls port peerAddress
  | ofPort calls port => SocketHandler.ofPort memory calls port
  | ofBoth calls port server => SocketHandler.ofBoth memory calls port server
  | default => pure memory

/-- The descriptor that the system gives to a constructor. -/
def socket : Ctor → Option Nat
  | ofServer calls .. => calls.socket
  | ofPeer calls .. => calls.socket
  | ofPort calls .. => calls.socket
  | ofBoth calls .. => calls.socket
  | default => none

/-- Whether a constructor throws after that without destroying the object. -/
def abandons : Ctor → Bool
  | ofPeer calls .. => !calls.bind
  | ofPort calls .. => !calls.bind
  | _ => false

/-- The socket that nobody will close: that of an object that has never come to life, and descriptor
0, which the destructor takes for no descriptor. -/
def loses (c : Ctor) : Finset Nat :=
  match c.socket with
  | some fd => if fd = 0 ∨ c.abandons then {fd} else ∅
  | none => ∅

end Ctor

/-- A process with its socket handlers, by the places they live at. -/
structure Process (ω : Type) where
  /-- The living objects. -/
  objects : ω → Option SocketHandler
  /-- The open descriptors. -/
  table : Descriptors
  /-- What the rest of the program has opened and not closed. -/
  rest : Finset Nat
  /-- The sockets that nobody will close. -/
  lost : Finset Nat

/-- The operations of the objects and of the rest of the program. -/
inductive SocketOp (ω : Type)
  | openOther (fd : Nat)
  | closeOther (fd : Nat)
  | construct (place : ω) (memory : SocketHandler) (c : Ctor)
  | moveConstruct (place source : ω)
  | moveAssign (place source : ω)
  | destroy (place : ω)

namespace Process

variable {ω : Type} [DecidableEq ω]

/-- A descriptor that the system can give out. -/
def Fresh (p : Process ω) (fd : Nat) : Prop := fd ∉ p.table.sockets ∧ fd ∉ p.table.others

instance (p : Process ω) (fd : Nat) : Decidable (p.Fresh fd) :=
  inferInstanceAs (Decidable (_ ∧ _))

/-- The process after an operation, if it is possible. -/
def step (p : Process ω) : SocketOp ω → Option (Process ω)
  | .openOther fd =>
    if p.Fresh fd then
      some { p with
        table := { p.table with others := insert fd p.table.others }
        rest := insert fd p.rest }
    else none
  | .closeOther fd =>
    if fd ∈ p.rest then some { p with table := p.table.close fd, rest := p.rest.erase fd }
    else none
  | .construct place memory c =>
    if (p.objects place).isNone ∧ ∀ fd ∈ c.socket, p.Fresh fd then
      match (c.run memory).run p.table with
      | (.ok h, t) => some { p with
          objects := Function.update p.objects place (some h)
          table := t
          lost := p.lost ∪ c.loses }
      | (.error _, t) => some { p with table := t, lost := p.lost ∪ c.loses }
    else none
  | .moveConstruct place source =>
    match p.objects place, p.objects source with
    | none, some move => some { p with
        objects := Function.update (Function.update p.objects place (some move)) source
          (some move.movedFrom) }
    | _, _ => none
  | .moveAssign place source =>
    match p.objects place, p.objects source with
    | some this, some move =>
      if place = source then some p
      else some { p with
        objects := Function.update (Function.update p.objects place (some move)) source
          (some move.assignedFrom)
        table := ((this.destroy).run p.table).2 }
    | _, _ => none
  | .destroy place =>
    match p.objects place with
    | some h => some { p with
        objects := Function.update p.objects place none
        table := ((h.destroy).run p.table).2 }
    | none => none

/-- The descriptors that the objects would close. -/
def holdings {ω : Type} (objects : ω → Option SocketHandler) (place : ω) : Option Nat :=
  (objects place).bind SocketHandler.descriptor

/-- The books are right. -/
structure Sane (p : Process ω) : Prop where
  /-- Every socket is held by one object, or lost. -/
  accounted : Accounted (holdings p.objects) p.table.sockets p.lost
  /-- The rest of the program has what it has opened. -/
  rest : p.table.others = p.rest
  /-- No descriptor is both. -/
  disjoint : Disjoint p.table.sockets p.table.others

/-- An object made by the default constructor does not seem to have a descriptor. -/
def Determinate (_ : Process ω) : SocketOp ω → Prop
  | .construct _ memory .default => memory.sockfd ≤ 0
  | _ => True

/-- A process without socket handlers. -/
def start (rest : Finset Nat) : Process ω := ⟨fun _ ↦ none, ⟨∅, rest⟩, rest, ∅⟩

end Process

/-! ## What the functions do to the descriptors

Every constructor opens at most one socket, and either there is an object then that has it, or
none. -/

theorem SocketHandler.descriptor_of_pos {h : SocketHandler} (hpos : h.sockfd > 0) :
    h.descriptor = some h.sockfd.toNat := if_pos hpos

theorem SocketHandler.descriptor_of_not_pos {h : SocketHandler} (hpos : ¬ h.sockfd > 0) :
    h.descriptor = none := if_neg hpos

theorem SocketHandler.run_destroy (h : SocketHandler) (t : Descriptors) :
    ((h.destroy).run t).2 = if h.sockfd > 0 then t.close h.sockfd else t := by
  rw [destroy]
  split <;> rfl

/-- How a constructor that creates a socket ends. -/
inductive Ctor.Ends (c : Ctor) (memory : SocketHandler) (t : Descriptors) (fd : Nat) : Prop
  /-- The object lives. -/
  | ok (h : SocketHandler) (hfd : h.sockfd = fd) (hc : c.abandons = false)
      (hrun : (c.run memory).run t = (.ok h, t.create fd))
  /-- An exception is thrown, and the socket stays open. -/
  | abandoned (e : SocketError) (hc : c.abandons = true)
      (hrun : (c.run memory).run t = (.error e, t.create fd))
  /-- An exception is thrown, and the object is destroyed. -/
  | destroyed (e : SocketError) (hc : c.abandons = false)
      (hrun : (c.run memory).run t =
        (.error e, if fd = 0 then t.create fd else (t.create fd).close fd))

theorem Ctor.ends {c : Ctor} {fd : Nat} (hc : c.socket = some fd) (memory : SocketHandler)
    (t : Descriptors) : c.Ends memory t fd := by
  cases c with
  | ofServer calls port server =>
    obtain ⟨_, b⟩ := calls
    obtain rfl : _ = some fd := hc
    exact .ok _ rfl rfl rfl
  | ofPeer calls port peerAddress =>
    obtain ⟨_, b⟩ := calls
    obtain rfl : _ = some fd := hc
    cases b with
    | true => exact .ok _ rfl rfl rfl
    | false => exact .abandoned _ rfl rfl
  | ofPort calls port =>
    obtain ⟨_, b⟩ := calls
    obtain rfl : _ = some fd := hc
    cases b with
    | true => exact .ok _ rfl rfl rfl
    | false => exact .abandoned _ rfl rfl
  | ofBoth calls port server =>
    obtain ⟨_, b⟩ := calls
    obtain rfl : _ = some fd := hc
    cases b with
    | true => exact .ok _ rfl rfl rfl
    | false =>
      cases fd with
      | zero => exact .destroyed _ rfl rfl
      | succ n =>
        refine .destroyed .badBind rfl ?_
        have hrun : ∀ h : SocketHandler, h.sockfd = (n + 1 : Nat) →
            h.destroy = (modify fun t ↦ t.close (n + 1 : Nat) : Sys Unit) := by
          intro h hh
          rw [SocketHandler.destroy, hh, if_pos (by omega)]
        rw [if_neg (Nat.succ_ne_zero n), run, SocketHandler.ofBoth, SocketHandler.ofServer,
          SocketHandler.initClientSocket, SocketHandler.openSocket]
        simp only [Int.natCast_add, Int.cast_ofNat_Int, bind_pure_comp, Functor.map_map,
          bind_map_left, hrun]
        rfl
  | default => cases hc

/-- A constructor that gets no socket does nothing. -/
theorem Ctor.run_of_none {c : Ctor} (hc : c.socket = none) (hne : c ≠ .default)
    (memory : SocketHandler) (t : Descriptors) : ∃ e, (c.run memory).run t = (.error e, t) := by
  cases c with
  | ofServer calls port server =>
    obtain ⟨_, b⟩ := calls
    obtain rfl : _ = none := hc
    exact ⟨.badCreate, rfl⟩
  | ofPeer calls port peerAddress =>
    obtain ⟨_, b⟩ := calls
    obtain rfl : _ = none := hc
    exact ⟨.badCreate, rfl⟩
  | ofPort calls port =>
    obtain ⟨_, b⟩ := calls
    obtain rfl : _ = none := hc
    exact ⟨.badCreate, rfl⟩
  | ofBoth calls port server =>
    obtain ⟨_, b⟩ := calls
    obtain rfl : _ = none := hc
    exact ⟨.badCreate, rfl⟩
  | default => exact absurd rfl hne

theorem Ctor.loses_of_none {c : Ctor} (hc : c.socket = none) : c.loses = ∅ := by
  rw [loses, hc]

theorem Ctor.loses_of_some {c : Ctor} {fd : Nat} (hc : c.socket = some fd) :
    c.loses = if fd = 0 ∨ c.abandons then {fd} else ∅ := by
  rw [loses, hc]

/-! ## What the moves do to the books

The books are the set of open sockets against the descriptors of the living objects and those that
have been lost. -/

namespace Process

variable {ω : Type} [DecidableEq ω] {p p' : Process ω}

theorem holdings_update (objects : ω → Option SocketHandler) (place : ω)
    (o : Option SocketHandler) :
    holdings (Function.update objects place o) =
      Function.update (holdings objects) place (o.bind SocketHandler.descriptor) :=
  Function.comp_update (fun o : Option SocketHandler ↦ o.bind SocketHandler.descriptor) ..

omit [DecidableEq ω] in
theorem holdings_of_none {objects : ω → Option SocketHandler} {place : ω}
    (h : objects place = none) : holdings objects place = none := by
  rw [holdings, h, Option.bind_none]

omit [DecidableEq ω] in
theorem holdings_of_some {objects : ω → Option SocketHandler} {place : ω} {h : SocketHandler}
    (hh : objects place = some h) : holdings objects place = h.descriptor := by
  rw [holdings, hh, Option.bind_some]

omit [DecidableEq ω] in
/-- Closing a descriptor of the rest of the program leaves the sockets alone. -/
theorem Sane.closeOther (hp : p.Sane) {fd : Nat} (hfd : fd ∈ p.rest) :
    Sane { p with table := p.table.close fd, rest := p.rest.erase fd } := by
  have hsocket : fd ∉ p.table.sockets := fun h ↦
    Finset.disjoint_left.mp hp.disjoint h (hp.rest ▸ hfd)
  refine ⟨?_, ?_, ?_⟩
  · simp only [Descriptors.close, Int.toNat_natCast, Finset.erase_eq_of_notMem hsocket]
    exact hp.accounted
  · simp only [Descriptors.close, Int.toNat_natCast, hp.rest]
  · exact hp.disjoint.mono (Finset.erase_subset ..) (Finset.erase_subset ..)

omit [DecidableEq ω] in
theorem Sane.openOther (hp : p.Sane) {fd : Nat} (hfd : p.Fresh fd) :
    Sane { p with
      table := { p.table with others := insert fd p.table.others }
      rest := insert fd p.rest } where
  accounted := hp.accounted
  rest := by simp only [hp.rest]
  disjoint := Finset.disjoint_insert_right.mpr ⟨hfd.1, hp.disjoint⟩

/-- An object is destroyed, or its descriptor closed because it is about to get another one. -/
theorem Sane.dispose (hp : p.Sane) {place : ω} {h : SocketHandler}
    (hh : p.objects place = some h) :
    Sane { p with
      objects := Function.update p.objects place none
      table := ((h.destroy).run p.table).2 } := by
  have hat := holdings_of_some hh
  rw [h.run_destroy]
  split
  · rename_i hpos
    rw [SocketHandler.descriptor_of_pos hpos] at hat
    have hother : h.sockfd.toNat ∉ p.table.others :=
      Finset.disjoint_left.mp hp.disjoint (hp.accounted.held hat)
    refine ⟨?_, (Finset.erase_eq_of_notMem hother).trans hp.rest,
      hp.disjoint.mono (Finset.erase_subset ..) (Finset.erase_subset ..)⟩
    simp only [holdings_update]
    exact hp.accounted.release hat
  · rename_i hpos
    rw [SocketHandler.descriptor_of_not_pos hpos] at hat
    refine ⟨?_, hp.rest, hp.disjoint⟩
    simp only [holdings_update]
    exact hp.accounted.update_none hat

/-- A descriptor goes from one object to another that has none. -/
theorem Sane.handOver (hp : p.Sane) {place source : ω} {move left : SocketHandler}
    (hplace : p.objects place = none) (hsource : p.objects source = some move)
    (hleft : left.sockfd = -1) :
    Sane { p with
      objects := Function.update (Function.update p.objects place (some move)) source
        (some left) } := by
  have hne : place ≠ source := by
    rintro rfl
    rw [hplace] at hsource
    cases hsource
  have hnone : left.descriptor = none :=
    SocketHandler.descriptor_of_not_pos (by rw [hleft]; decide)
  have hbooks := hp.accounted.transfer (holdings_of_none hplace) hne
  rw [holdings_of_some hsource] at hbooks
  refine ⟨?_, hp.rest, hp.disjoint⟩
  simp only [holdings_update, Option.bind_some, hnone]
  exact hbooks

omit [DecidableEq ω] in
/-- A socket is created that no object gets. -/
theorem Sane.lose (hp : p.Sane) {fd : Nat} (hfd : p.Fresh fd) :
    Sane { p with table := p.table.create fd, lost := p.lost ∪ {fd} } where
  accounted := by
    rw [Finset.union_comm, ← Finset.insert_eq]
    exact hp.accounted.lose hfd.1
  rest := hp.rest
  disjoint := Finset.disjoint_insert_left.mpr ⟨hfd.2, hp.disjoint⟩

/-- An object appears that has no descriptor. -/
theorem Sane.appear (hp : p.Sane) {place : ω} (hplace : p.objects place = none)
    {h : SocketHandler} (hh : ¬ h.sockfd > 0) :
    Sane { p with objects := Function.update p.objects place (some h) } where
  accounted := by
    simp only [holdings_update, Option.bind_some, SocketHandler.descriptor_of_not_pos hh]
    exact hp.accounted.update_none (holdings_of_none hplace)
  rest := hp.rest
  disjoint := hp.disjoint

/-- An object appears that has a new descriptor. -/
theorem Sane.acquire (hp : p.Sane) {place : ω} (hplace : p.objects place = none) {fd : Nat}
    (hfd : p.Fresh fd) {h : SocketHandler} (hh : h.descriptor = some fd) :
    Sane { p with
      objects := Function.update p.objects place (some h)
      table := p.table.create fd } where
  accounted := by
    simp only [holdings_update, Option.bind_some, hh]
    exact hp.accounted.acquire (holdings_of_none hplace) hfd.1
  rest := hp.rest
  disjoint := Finset.disjoint_insert_left.mpr ⟨hfd.2, hp.disjoint⟩

/-- A constructor has created a socket, and there is an object that has it.  Descriptor 0 is lost
all the same, since no object closes it. -/
theorem Sane.live (hp : p.Sane) {place : ω} (hplace : p.objects place = none) {fd : Nat}
    (hfd : p.Fresh fd) {h : SocketHandler} (hh : h.sockfd = fd) :
    Sane { p with
      objects := Function.update p.objects place (some h)
      table := p.table.create fd
      lost := p.lost ∪ if fd = 0 then {fd} else ∅ } := by
  by_cases hzero : fd = 0
  · simp only [hzero, if_true]
    rw [hzero] at hfd hh
    exact (hp.lose hfd).appear hplace (by rw [hh]; decide)
  · simp only [hzero, if_false, Finset.union_empty]
    have hdesc : h.descriptor = some fd := by
      rw [SocketHandler.descriptor_of_pos (by rw [hh]; omega), hh, Int.toNat_natCast]
    exact hp.acquire hplace hfd hdesc

omit [DecidableEq ω] in
/-- A socket has been created and closed again, unless its descriptor is 0. -/
theorem Sane.giveBack (hp : p.Sane) {fd : Nat} (hfd : p.Fresh fd) :
    Sane { p with
      table := if fd = 0 then p.table.create fd else (p.table.create fd).close fd
      lost := p.lost ∪ if fd = 0 then {fd} else ∅ } := by
  by_cases hzero : fd = 0
  · simp only [hzero, if_true]
    exact hp.lose (hzero ▸ hfd)
  · have hclose : (p.table.create fd).close fd = p.table := by
      simp only [Descriptors.create, Descriptors.close, Int.toNat_natCast,
        Finset.erase_insert hfd.1, Finset.erase_eq_of_notMem hfd.2]
    simp only [hzero, if_false, Finset.union_empty, hclose]
    exact hp

/-- A constructor keeps the books. -/
theorem Sane.construct (hp : p.Sane) {place : ω} {memory : SocketHandler} {c : Ctor}
    (hok : Determinate p (.construct place memory c))
    (hs : p.step (.construct place memory c) = some p') : p'.Sane := by
  rw [step] at hs
  split at hs
  swap
  · cases hs
  rename_i hfree
  obtain ⟨hplace, hfresh⟩ := hfree
  rw [Option.isNone_iff_eq_none] at hplace
  cases hc : c.socket with
  | none =>
    rw [Ctor.loses_of_none hc, Finset.union_empty] at hs
    by_cases hdefault : c = .default
    · subst hdefault
      obtain rfl := Option.some_inj.mp hs
      exact hp.appear hplace (by simpa [Determinate] using hok)
    · obtain ⟨e, hrun⟩ := Ctor.run_of_none hc hdefault memory p.table
      rw [hrun] at hs
      obtain rfl := Option.some_inj.mp hs
      exact hp
  | some fd =>
    have hfd := hfresh fd hc
    rw [Ctor.loses_of_some hc] at hs
    cases Ctor.ends hc memory p.table with
    | ok h hh hlive hrun =>
      simp only [hrun, hlive, Bool.false_eq_true, or_false] at hs
      obtain rfl := Option.some_inj.mp hs
      exact hp.live hplace hfd hh
    | abandoned e hab hrun =>
      rw [hrun, if_pos (.inr hab)] at hs
      obtain rfl := Option.some_inj.mp hs
      exact hp.lose hfd
    | destroyed e hab hrun =>
      simp only [hrun, hab, Bool.false_eq_true, or_false] at hs
      obtain rfl := Option.some_inj.mp hs
      exact hp.giveBack hfd

/-- An allowed move keeps the books. -/
theorem Sane.step (hp : p.Sane) {op : SocketOp ω} (hok : Determinate p op)
    (hs : p.step op = some p') : p'.Sane := by
  cases op with
  | openOther fd =>
    rw [Process.step] at hs
    split at hs
    · rename_i hfd
      obtain rfl := Option.some_inj.mp hs
      exact hp.openOther hfd
    · cases hs
  | closeOther fd =>
    rw [Process.step] at hs
    split at hs
    · rename_i hfd
      obtain rfl := Option.some_inj.mp hs
      exact hp.closeOther hfd
    · cases hs
  | construct place memory c => exact hp.construct hok hs
  | moveConstruct place source =>
    rw [Process.step] at hs
    split at hs
    · rename_i hplace hsource
      obtain rfl := Option.some_inj.mp hs
      exact hp.handOver hplace hsource rfl
    · cases hs
  | moveAssign place source =>
    rw [Process.step] at hs
    split at hs
    · rename_i this move hplace hsource
      split at hs
      · obtain rfl := Option.some_inj.mp hs
        exact hp
      · rename_i hne
        obtain rfl := Option.some_inj.mp hs
        -- as if the object were destroyed and made anew
        have hmoved := (hp.dispose hplace).handOver (Function.update_self ..)
          ((Function.update_of_ne (Ne.symm hne) ..).trans hsource)
          (rfl : move.assignedFrom.sockfd = -1)
        simpa only [Function.update_idem] using hmoved
    · cases hs
  | destroy place =>
    rw [Process.step] at hs
    split at hs
    · rename_i h hplace
      obtain rfl := Option.some_inj.mp hs
      exact hp.dispose hplace
    · cases hs

/-- An object that only seems to have a descriptor spoils the books at once. -/
theorem Sane.not_sane (hp : p.Sane) {op : SocketOp ω} (hbad : ¬ Determinate p op)
    (hs : p.step op = some p') : ¬ p'.Sane := by
  cases op with
  | construct place memory c =>
    cases c with
    | default =>
      have hpos : memory.sockfd > 0 := by simpa [Determinate] using hbad
      rw [Process.step] at hs
      split at hs
      swap
      · cases hs
      rename_i hfree
      have hplace := Option.isNone_iff_eq_none.mp hfree.1
      rw [Ctor.loses_of_none rfl, Finset.union_empty] at hs
      obtain rfl := Option.some_inj.mp hs
      intro hp'
      have hat : holdings (Function.update p.objects place (some memory)) place
          = some memory.sockfd.toNat := by
        rw [holdings_of_some (Function.update_self ..), SocketHandler.descriptor_of_pos hpos]
      -- the descriptor is open and not lost, so somebody else holds it
      obtain ⟨x, hx⟩ := hp.accounted.covered _ (hp'.accounted.held hat) (hp'.accounted.kept hat)
      have hne : x ≠ place := by
        rintro rfl
        rw [holdings_of_none hplace] at hx
        cases hx
      have hx' : holdings (Function.update p.objects place (some memory)) x
          = some memory.sockfd.toNat := by
        rw [holdings_update, Function.update_of_ne hne, hx]
      exact hne (hp'.accounted.exclusive hx' hat)
    | _ => exact absurd trivial hbad
  | _ => exact absurd trivial hbad

omit [DecidableEq ω] in
theorem sane_start (rest : Finset Nat) : (start rest : Process ω).Sane :=
  ⟨Accounted.empty, rfl, Finset.disjoint_empty_left _⟩

end Process

/-- **Every socket is accounted for, at every moment of a run, if and only if no default constructor
leaves a positive number in `sockfd`**: then different objects hold different open sockets, every
other open socket is one of those that a throwing constructor has lost (or descriptor 0), and no
descriptor of the rest of the program is ever closed by an object. -/
theorem sockets_accounted {ω : Type} [DecidableEq ω] (rest : Finset Nat)
    (ops : List (SocketOp ω)) :
    Runs.Always Process.step Process.Sane ops (Process.start rest) ↔
      Runs.Along Process.step Process.Determinate ops (Process.start rest) :=
  Runs.always_iff_along (I := Process.Sane) (fun _ ↦ id) (fun _ _ _ hp hok ↦ hp.step hok)
    (fun _ _ _ hp hbad ↦ hp.not_sane hbad) ops (Process.sane_start rest)

end Bropdox
