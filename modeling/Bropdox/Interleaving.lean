import Bropdox.FlatHost
import Bropdox.ReplicaManager
import Bropdox.Session.Solo

/-!
# Several senders at one replica manager

The primary's `listen` hears from its own server, which forwards a handshake as two datagrams, and
from backups that join, who send a request and later an acknowledgement.  Every request consists of
a header and one further datagram, and `listen` reads them in pairs from one socket without looking
at who sent the second.

## What is here

* `Request` is a request to a primary with its header and its payload, `stream` what a sender of
  such requests sends, and `Interleaves` says of what has arrived that it is an interleaving of what
  any number of senders have sent so far.
* `Paired` is the condition: every second datagram comes from the sender of the one before it.
* `pairing` is a monitor (`Session/Solo.lean`) that remembers who sent the header of the operation
  that is handled, and `Unmixed` says that it is content with whatever `listen` does.
* `listen_header` and the lemmas `serveRequest_*` follow `listen` through one operation; the
  induction goes two datagrams at a time (`always_listen_iff`).
* `operations_unmixed_iff`: nothing is mixed up if and only if the datagrams are paired, for every
  number of senders, every interleaving and every faithful reading of datagrams.
* `overtaken_mixed` is a request of a backup that arrives between the two datagrams of the server.
-/

set_option autoImplicit false

namespace Bropdox

open FileSystem Session Program ReplicaManager

/-! ## What the senders send

A sender sends whole requests, but what has arrived of them may break off anywhere. -/

/-- A request to a primary. -/
inductive Request
  /-- The server forwards a handshake. -/
  | login (hand : Handshake)
  /-- A backup asks to join, and acknowledges the answer. -/
  | entrance (ack : Ack)

/-- The operation the request starts with. -/
def Request.header : Request → Datagram groupWire
  | login _ => ⟨Kind.rmOperation, ⟨ServReq.clientLogin⟩⟩
  | entrance _ => ⟨Kind.rmOperation, ⟨ServReq.requestEntrance⟩⟩

/-- The datagram that belongs to it. -/
def Request.payload : Request → Datagram groupWire
  | login hand => ⟨Kind.handshake, hand⟩
  | entrance ack => ⟨Kind.ack, ack⟩

/-- What a sender of these requests sends. -/
def stream (requests : List Request) : List (Datagram groupWire) :=
  requests.flatMap fun r ↦ [r.header, r.payload]

/-- What has arrived from one address. -/
def arrivedFrom (a : SockAddr) (ps : List (Parcel groupWire)) : List (Datagram groupWire) :=
  (ps.filter fun p ↦ p.1 = a).map Prod.snd

/-- What has arrived is an interleaving of what the senders have sent so far. -/
def Interleaves (requests : SockAddr → List Request) (ps : List (Parcel groupWire)) : Prop :=
  ∀ a, arrivedFrom a ps <+: stream (requests a)

/-- Every second datagram comes from the sender of the one before it. -/
def Paired : List (Parcel groupWire) → Prop
  | p :: p' :: ps => p'.1 = p.1 ∧ Paired ps
  | _ => True

instance : (ps : List (Parcel groupWire)) → Decidable (Paired ps)
  | p :: p' :: ps =>
    have := instDecidablePaired ps
    inferInstanceAs (Decidable (p'.1 = p.1 ∧ Paired ps))
  | [] => .isTrue trivial
  | [_] => .isTrue trivial

/-! ## What must not happen

A datagram is read as the payload of somebody else's operation. -/

/-- The monitor remembers who sent the header of the operation that is handled.  Every datagram must
be read as what it was sent as, and after the header only those of that sender may be read. -/
def pairing : Monitor groupWire (Option SockAddr) where
  ok s
    | .got κ p => p.2.1 = κ ∧ (κ = Kind.rmOperation ∨ s = some p.1)
    | .sent _ => True
  next s
    | .got κ p => if κ = Kind.rmOperation then some p.1 else s
    | .sent _ => s

/-- Whatever `listen` does with what has arrived, it mixes nothing up. -/
def Unmixed (read : Reading groupWire) (h : Host) (ps : List (Parcel groupWire)) : Prop :=
  pairing.Always read body none ⟨h, callListen⟩ (some ps)

section Rules

variable {read : Reading groupWire} {α : Type} {s : Option SockAddr} {h : Host}
  {i : Inbox groupWire}

@[simp] theorem always_sendTo {a : SockAddr} {κ : Kind} {m : κ.Msg} {k : Unit → Prog α} :
    pairing.Always read body s ⟨h, (sendTo a κ m).bind k⟩ i ↔
      pairing.Always read body s ⟨h, k ()⟩ i :=
  Monitor.always_emit.trans (and_iff_right trivial)

@[simp] theorem always_get {k : Host → Prog α} :
    pairing.Always read body s ⟨h, get.bind k⟩ i ↔ pairing.Always read body s ⟨h, k h⟩ i :=
  Monitor.always_run (P := sig) rfl

@[simp] theorem always_update {f : Host → Host} {k : Unit → Prog α} :
    pairing.Always read body s ⟨h, (update f).bind k⟩ i ↔
      pairing.Always read body s ⟨f h, k ()⟩ i :=
  Monitor.always_run (P := sig) rfl

theorem always_sendToAll {κ : Kind} {m : κ.Msg} {as : List SockAddr} {k : Unit → Prog α} :
    pairing.Always read body s ⟨h, (sendToAll κ m as).bind k⟩ i ↔
      pairing.Always read body s ⟨h, k ()⟩ i := by
  induction as with
  | nil => rfl
  | cons a as ih => simp only [sendToAll, bind_eq, bind_assoc, always_sendTo, ih]

@[simp] theorem always_multicast {κ : Kind} {m : κ.Msg} {k : Unit → Prog α} :
    pairing.Always read body s ⟨h, (multicast κ m).bind k⟩ i ↔
      pairing.Always read body s ⟨h, k ()⟩ i := by
  simp only [multicast, bind_eq, bind_assoc, always_get, always_sendToAll]

@[simp] theorem always_sendMembers {a : SockAddr} {es : List (UInt32 × SockAddr)}
    {k : Unit → Prog α} :
    pairing.Always read body s ⟨h, (sendMembers a es).bind k⟩ i ↔
      pairing.Always read body s ⟨h, k ()⟩ i := by
  induction es with
  | nil => rfl
  | cons e es ih => simp only [sendMembers, bind_eq, bind_assoc, always_sendTo, ih]

/-- A payload is read. -/
theorem always_waitPacket {κ : Kind} {p : Parcel groupWire} {m : κ.Msg}
    {ps : List (Parcel groupWire)} {k : Option κ.Msg → Prog α} (hm : read κ p.2 = some m)
    (hκ : κ ≠ .rmOperation) :
    pairing.Always read body s ⟨h, (waitPacket κ).bind k⟩ (some (p :: ps)) ↔
      (p.2.1 = κ ∧ s = some p.1) ∧ pairing.Always read body s ⟨h, k (some m)⟩ (some ps) := by
  refine (Monitor.always_await (W := groupWire) hm).trans ?_
  simp [pairing, hκ]

theorem always_waitPacket_nil {κ : Kind} {k : Option κ.Msg → Prog α} :
    pairing.Always read body s ⟨h, (waitPacket κ).bind k⟩ (some []) :=
  Monitor.always_wait_nil

end Rules

/-! ## Operation by operation

What `listen` does with a header, and with what comes next. -/

section Listening

variable {read : Reading groupWire} {s : Option SockAddr} {h : Host} {a : SockAddr}
  {p : Parcel groupWire} {ps : List (Parcel groupWire)}

theorem listen_nil : pairing.Always read body s ⟨h, callListen⟩ (some []) := by
  rw [← bind_ret callListen, callListen, Monitor.always_invoke]
  exact Monitor.always_wait_nil

/-- The operation a request asks for. -/
def Request.operation : Request → ServReq
  | login _ => .clientLogin
  | entrance _ => .requestEntrance

/-- What is left of `listen` after the header. -/
def serveRequest (a : SockAddr) (r : Request) : Prog Unit :=
  (serve a r.operation).bind fun on ↦ if on then callListen else pure ()

/-- A header is read. -/
theorem listen_header (hread : Faithful read) (r : Request) :
    pairing.Always read body s ⟨h, callListen⟩ (some ((a, r.header) :: ps)) ↔
      pairing.Always read body (some a) ⟨h, serveRequest a r⟩ (some ps) := by
  rw [← bind_ret callListen, callListen, Monitor.always_invoke, bind_ret]
  have hm : read Kind.rmOperation r.header = some ⟨r.operation⟩ := by
    cases r <;> exact hread.right Kind.rmOperation _
  have hkind : r.header.1 = Kind.rmOperation := by cases r <;> rfl
  refine (Monitor.always_awaitFrom (W := groupWire) hm).trans ?_
  simp [pairing, hkind, serveRequest]

/-- The payload is still to come. -/
theorem serveRequest_nil (hprimary : h.primary = true) (r : Request) :
    pairing.Always read body s ⟨h, serveRequest a r⟩ (some []) := by
  cases r with
  | login hand =>
    simp only [serveRequest, Request.operation, serve, clientLogin, bind_eq, bind_assoc]
    exact always_waitPacket_nil
  | entrance ack =>
    simp only [serveRequest, Request.operation, serve, requestEntrance, bind_eq, bind_assoc,
      always_get, hprimary, if_true, always_sendTo, always_sendMembers]
    exact always_waitPacket_nil

/-- Something of another sender is read as the payload. -/
theorem serveRequest_mixed (hread : Faithful read) (hprimary : h.primary = true) (r : Request)
    (hp : p.1 ≠ a) :
    ¬ pairing.Always read body (some a) ⟨h, serveRequest a r⟩ (some (p :: ps)) := by
  intro hall
  cases r with
  | login hand =>
    obtain ⟨m, hm⟩ := hread.total Kind.handshake p.2
    simp only [serveRequest, Request.operation, serve, clientLogin, bind_eq, bind_assoc] at hall
    have hsender := ((always_waitPacket hm (by decide)).mp hall).1.2
    exact hp (Option.some_inj.mp hsender).symm
  | entrance ack =>
    obtain ⟨m, hm⟩ := hread.total Kind.ack p.2
    simp only [serveRequest, Request.operation, serve, requestEntrance, bind_eq, bind_assoc,
      always_get, hprimary, if_true, always_sendTo, always_sendMembers] at hall
    have hsender := ((always_waitPacket hm (by decide)).mp hall).1.2
    exact hp (Option.some_inj.mp hsender).symm

/-- The payload is read, and `listen` is where it was, still on a primary. -/
theorem serveRequest_payload (ps : List (Parcel groupWire)) (hread : Faithful read)
    (hprimary : h.primary = true) (r : Request) :
    ∃ h', h'.primary = true ∧
      (pairing.Always read body (some a) ⟨h, serveRequest a r⟩ (some ((a, r.payload) :: ps)) ↔
        pairing.Always read body (some a) ⟨h', callListen⟩ (some ps)) := by
  cases r with
  | login hand =>
    have hm : read Kind.handshake (Request.login hand).payload = some hand :=
      hread.right Kind.handshake hand
    by_cases hfe : hand.reqType = .fe
    · refine ⟨{ h with frontEnds := h.frontEnds ++ [hand.feAddress] }, hprimary, ?_⟩
      simp only [serveRequest, Request.operation, serve, clientLogin, bind_eq, bind_assoc]
      rw [always_waitPacket (p := (a, (Request.login hand).payload)) hm (by decide)]
      simp [hprimary, hfe, Request.payload]
    · refine ⟨h, hprimary, ?_⟩
      simp only [serveRequest, Request.operation, serve, clientLogin, bind_eq, bind_assoc]
      rw [always_waitPacket (p := (a, (Request.login hand).payload)) hm (by decide)]
      by_cases hlogin : hand.reqType = .login
      · simp [hprimary, hlogin, Request.payload]
      · simp [hprimary, hfe, hlogin, Request.payload]
  | entrance ack =>
    have hm : read Kind.ack (Request.entrance ack).payload = some ack := hread.right Kind.ack ack
    refine ⟨{ h with group := h.group.assign (.ofNat (h.group.size + 1)) a }, hprimary, ?_⟩
    simp only [serveRequest, Request.operation, serve, requestEntrance, bind_eq, bind_assoc,
      always_get, hprimary, if_true, always_sendTo, always_sendMembers]
    rw [always_waitPacket (p := (a, (Request.entrance ack).payload)) hm (by decide)]
    simp [Request.payload, enroll, hprimary]

end Listening

/-! ## Every interleaving

The induction over what has arrived. -/

/-- What has arrived from one address starts with its oldest datagram. -/
theorem arrivedFrom_cons_self (p : Parcel groupWire) (ps : List (Parcel groupWire)) :
    arrivedFrom p.1 (p :: ps) = p.2 :: arrivedFrom p.1 ps := by
  simp [arrivedFrom]

theorem arrivedFrom_cons_of_ne {a : SockAddr} {p : Parcel groupWire} (h : p.1 ≠ a)
    (ps : List (Parcel groupWire)) : arrivedFrom a (p :: ps) = arrivedFrom a ps := by
  simp [arrivedFrom, h]

variable {requests : SockAddr → List Request}

/-- The first datagram of an interleaving is a header. -/
theorem Interleaves.head {p : Parcel groupWire} {ps : List (Parcel groupWire)}
    (hps : Interleaves requests (p :: ps)) :
    ∃ r rs, requests p.1 = r :: rs ∧ p.2 = r.header ∧
      arrivedFrom p.1 ps <+: r.payload :: stream rs := by
  have hp := hps p.1
  rw [arrivedFrom_cons_self] at hp
  cases hreq : requests p.1 with
  | nil =>
    rw [hreq] at hp
    exact absurd (List.prefix_nil.mp hp) (List.cons_ne_nil _ _)
  | cons r rs =>
    rw [hreq, stream, List.flatMap_cons] at hp
    obtain ⟨hhead, htail⟩ := List.cons_prefix_cons.mp hp
    exact ⟨r, rs, rfl, hhead, htail⟩

/-- After a whole request what is left is an interleaving again. -/
theorem Interleaves.tail {p p' : Parcel groupWire} {ps : List (Parcel groupWire)}
    (hps : Interleaves requests (p :: p' :: ps)) (hsame : p'.1 = p.1) :
    ∃ (r : Request) (requests' : SockAddr → List Request),
      p.2 = r.header ∧ p'.2 = r.payload ∧ Interleaves requests' ps := by
  obtain ⟨r, rs, hreq, hhead, hrest⟩ := hps.head
  rw [← hsame, arrivedFrom_cons_self] at hrest
  obtain ⟨hpayload, htail⟩ := List.cons_prefix_cons.mp hrest
  refine ⟨r, Function.update requests p.1 rs, hhead, hpayload, fun a ↦ ?_⟩
  by_cases ha : a = p.1
  · subst ha
    rw [Function.update_self, ← hsame]
    exact htail
  · have hold := hps a
    rw [arrivedFrom_cons_of_ne (Ne.symm ha), arrivedFrom_cons_of_ne (hsame ▸ Ne.symm ha)] at hold
    rwa [Function.update_of_ne ha]

/-- Two datagrams at a time. -/
theorem always_listen_iff {read : Reading groupWire} (hread : Faithful read)
    {ps : List (Parcel groupWire)} {s : Option SockAddr} {h : Host} (hprimary : h.primary = true)
    (hps : Interleaves requests ps) :
    pairing.Always read body s ⟨h, callListen⟩ (some ps) ↔ Paired ps := by
  induction ps using Paired.induct generalizing s h requests with
  | case1 p p' ps ih =>
    obtain ⟨a, d⟩ := p
    obtain ⟨b, d'⟩ := p'
    rw [Paired]
    by_cases hsame : b = a
    · subst hsame
      obtain ⟨r, requests', hhead, hpayload, hrest⟩ := hps.tail rfl
      obtain rfl : d = r.header := hhead
      obtain rfl : d' = r.payload := hpayload
      obtain ⟨h', hprimary', hserve⟩ := serveRequest_payload ps hread hprimary r
      rw [listen_header hread, hserve, ih hprimary' hrest]
      exact (and_iff_right rfl).symm
    · obtain ⟨r, rs, -, hhead, -⟩ := hps.head
      obtain rfl : d = r.header := hhead
      rw [listen_header hread]
      exact iff_of_false (serveRequest_mixed hread hprimary r hsame) fun hpaired ↦
        hsame hpaired.1
  | case2 ps hshort =>
    match ps with
    | [] => exact iff_of_true listen_nil trivial
    | [(a, d)] =>
      obtain ⟨r, rs, -, hhead, -⟩ := hps.head
      obtain rfl : d = r.header := hhead
      exact iff_of_true ((listen_header hread r).mpr (serveRequest_nil hprimary r)) trivial
    | p :: p' :: ps => exact absurd rfl (hshort p p' ps)

/-- **Nothing is mixed up if and only if every second datagram comes from the sender of the one
before it**: for every interleaving of any senders, whatever a socket makes of the bytes of another
type. -/
theorem operations_unmixed_iff {read : Reading groupWire} (hread : Faithful read) {h : Host}
    (hprimary : h.primary = true) {ps : List (Parcel groupWire)} (hps : Interleaves requests ps) :
    Unmixed read h ps ↔ Paired ps :=
  always_listen_iff hread hprimary hps

/-! A server and a backup, at a primary. -/

/-- A socket that makes zeros of everything it does not expect. -/
def zeroReading : Reading groupWire := fun κ d ↦ (typed κ d).or (some (Kind.zero κ))

theorem faithful_zeroReading : Faithful zeroReading :=
  ⟨fun κ d ↦ Option.isSome_iff_exists.mp (by simp [zeroReading]),
    fun κ m ↦ by rw [zeroReading, typed_self]; rfl⟩

/-- The server forwards one handshake, and one backup joins. -/
def twoSenders (a : SockAddr) : List Request :=
  if a = ⟨1, 5000⟩ then [.login ⟨.login, ['u'], 0, {}⟩]
  else if a = ⟨2, 5001⟩ then [.entrance ⟨true⟩]
  else []

/-- A primary. -/
def onePrimary : Host := makePrimary ⟨1, 5001⟩ ⟨1, 5000⟩ (blank ['s'])

theorem interleaves_twoSenders {ps : List (Parcel groupWire)}
    (hserver : arrivedFrom ⟨1, 5000⟩ ps <+: stream (twoSenders ⟨1, 5000⟩))
    (hbackup : arrivedFrom ⟨2, 5001⟩ ps <+: stream (twoSenders ⟨2, 5001⟩))
    (hother : ∀ p ∈ ps, p.1 = ⟨1, 5000⟩ ∨ p.1 = ⟨2, 5001⟩) : Interleaves twoSenders ps := by
  intro a
  by_cases hs : a = ⟨1, 5000⟩
  · exact hs ▸ hserver
  by_cases hb : a = ⟨2, 5001⟩
  · exact hb ▸ hbackup
  have hnone : arrivedFrom a ps = [] := by
    rw [arrivedFrom, List.map_eq_nil_iff, List.filter_eq_nil_iff]
    intro p hp ha
    rcases hother p hp with h | h
    · exact hs ((of_decide_eq_true ha).symm.trans h)
    · exact hb ((of_decide_eq_true ha).symm.trans h)
  rw [hnone]
  exact List.nil_prefix

/-- What the two send, one after the other. -/
def inTurn : List (Parcel groupWire) :=
  (stream (twoSenders ⟨1, 5000⟩)).map (⟨1, 5000⟩, ·) ++
    (stream (twoSenders ⟨2, 5001⟩)).map (⟨2, 5001⟩, ·)

theorem interleaves_inTurn : Interleaves twoSenders inTurn :=
  interleaves_twoSenders ⟨[], rfl⟩ ⟨[], rfl⟩ (by decide)

theorem inTurn_unmixed : Unmixed zeroReading onePrimary inTurn :=
  (operations_unmixed_iff faithful_zeroReading rfl interleaves_inTurn).mpr (by decide)

/-- The request of the backup arrives between the two datagrams of the server. -/
def overtaken : List (Parcel groupWire) :=
  [(⟨1, 5000⟩, (Request.login ⟨.login, ['u'], 0, {}⟩).header),
    (⟨2, 5001⟩, (Request.entrance ⟨true⟩).header),
    (⟨1, 5000⟩, (Request.login ⟨.login, ['u'], 0, {}⟩).payload)]

/-- **A request that overtakes a payload is read as the handshake.** -/
theorem overtaken_mixed :
    Interleaves twoSenders overtaken ∧ Faithful zeroReading ∧ onePrimary.primary = true ∧
      ¬ Unmixed zeroReading onePrimary overtaken := by
  have hps : Interleaves twoSenders overtaken :=
    interleaves_twoSenders ⟨[], rfl⟩ ⟨[(Request.entrance ⟨true⟩).payload], rfl⟩ (by decide)
  refine ⟨hps, faithful_zeroReading, rfl, fun hall ↦ ?_⟩
  have hpaired := (always_listen_iff faithful_zeroReading rfl hps).mp hall
  exact absurd hpaired (by decide)

end Bropdox
