import Bropdox.Sites

/-!
# Logins on their way to a backup

The replica managers of a primary and its backups are always in the middle of something: a handshake
has been read and not yet passed on, an announcement has been sent and not yet followed by the
handshake.  A replica is looked at here as if its replica manager, and that of the primary, had said
at once what they are about to say.  Then what one move does to it is only a matter of lists.

## What is here

* `pairs`, `handsOf` and `requests` are about lists of datagrams in which every handshake comes
  behind an announcement.
* `View` is a replica seen in this way: where its replica manager waits, what reaches it from its
  server and from the primary, and what reaches the server.
* `View.Sound` says that a replica is as it should be: its logins are handled in order, and the
  handshakes that are forwarded stay announced one by one.
* `View.Heads` is what is special about the primary, and `View.Relays` compares the primary with a
  backup: what the primary's server has taken, the backup's server takes in the same order, if what
  is still on its way to the backup is counted in.
* The lemmas `Sound.*` are the moves of a replica one by one, each with the view after it.

`LoginReplication.lean` connects the views with the moves of the replicas, and follows `Relays`
through them.
-/

set_option autoImplicit false

namespace Bropdox

open FileSystem Session Program ReplicaManager

/-! ## What is on its way

Lists of datagrams, and what of a request a replica manager has already read where it waits. -/

/-- Handshakes that are announced one by one. -/
def pairs (req : ServReq) (hands : List Handshake) : List (Datagram groupWire) :=
  hands.flatMap fun hand ↦ [operation req, handshake hand]

/-- The handshakes among some datagrams. -/
def handsOf (ds : List (Datagram groupWire)) : List Handshake :=
  ds.filterMap fun d ↦ typed (W := groupWire) Kind.handshake d

/-- Everything but the answers of a server. -/
def requests (ds : List (Datagram groupWire)) : List (Datagram groupWire) :=
  ds.filter fun d ↦ d.1 ≠ Kind.syn

section Lists

variable {req : ServReq} {hand : Handshake} {hands hands' : List Handshake}
  {ds ds' : List (Datagram groupWire)} {d : Datagram groupWire}

@[simp] theorem pairs_nil : pairs req [] = [] := rfl

@[simp] theorem pairs_cons :
    pairs req (hand :: hands) = operation req :: handshake hand :: pairs req hands := rfl

@[simp] theorem pairs_append : pairs req (hands ++ hands') = pairs req hands ++ pairs req hands' :=
  List.flatMap_append

@[simp] theorem handsOf_nil : handsOf [] = [] := rfl

@[simp] theorem handsOf_append : handsOf (ds ++ ds') = handsOf ds ++ handsOf ds' :=
  List.filterMap_append ..

@[simp] theorem handsOf_handshake : handsOf (handshake hand :: ds) = hand :: handsOf ds :=
  List.filterMap_cons_some (typed_self ..)

theorem handsOf_cons_of_ne (h : d.1 ≠ Kind.handshake) : handsOf (d :: ds) = handsOf ds :=
  List.filterMap_cons_none (typed_of_ne h)

@[simp] theorem handsOf_operation : handsOf (operation req :: ds) = handsOf ds :=
  handsOf_cons_of_ne Kind.noConfusion

@[simp] theorem requests_nil : requests [] = [] := rfl

@[simp] theorem requests_append : requests (ds ++ ds') = requests ds ++ requests ds' :=
  List.filter_append ..

theorem requests_cons_of_ne (h : d.1 ≠ Kind.syn) : requests (d :: ds) = d :: requests ds :=
  List.filter_cons_of_pos (decide_eq_true h)

theorem requests_cons_syn (h : d.1 = Kind.syn) : requests (d :: ds) = requests ds :=
  List.filter_cons_of_neg (by simp [h])

/-- A list of announced handshakes starts with the announcement. -/
theorem eq_operation_of_cons (h : d :: ds = pairs req hands) : d = operation req := by
  cases hands with
  | nil => cases h
  | cons hand hands => exact (List.cons.inj h).1

/-- Answers are neither handshakes nor requests. -/
theorem requests_of_forall_syn (h : ∀ d ∈ ds, d.1 = Kind.syn) :
    requests ds = [] ∧ handsOf ds = [] := by
  constructor
  · exact List.filter_eq_nil_iff.mpr fun d hd ↦ by simp [h d hd]
  · exact List.filterMap_eq_nil_iff.mpr fun d hd ↦
      typed_of_ne (by rw [h d hd]; exact Kind.noConfusion)

end Lists

namespace ReplicaManager

/-- What a replica manager has already read of a request of its server. -/
def Control.ofServer : Control → List (Datagram groupWire)
  | .handed => [operation .clientLogin]
  | _ => []

/-- What a replica manager has already read of a request of the primary. -/
def Control.ofPrimary : Control → List (Datagram groupWire)
  | .propagated => [operation .propagateLogin]
  | _ => []

end ReplicaManager

/-! ## The replicas, seen from their servers

The view of a replica, and the invariant of it. -/

/-- A replica, when the replica managers have said what they are about to say. -/
structure View where
  /-- Where its replica manager waits. -/
  control : Control
  /-- The handshakes that reach its server. -/
  calling : List (Handshake × SockAddr)
  /-- The handshake its server has announced. -/
  forwarding : Option (Handshake × SockAddr)
  /-- What reaches its replica manager from its server. -/
  fromServer : List (Datagram groupWire)
  /-- What reaches its replica manager from the primary. -/
  fromPrimary : List (Datagram groupWire)
  /-- The server of the replica. -/
  server : Threaded

namespace View

/-- The handshakes its server has taken and its replica manager has not read. -/
def unread (V : View) : List Handshake := handsOf V.fromServer ++ V.forwarding.toList.map Prod.fst

/-- The users its server has taken, in order. -/
def taken (V : View) : List Name :=
  V.server.users ++ V.forwarding.toList.map fun x ↦ x.1.userid

/-- The users its server will take, in order. -/
def toCome (V : View) : List Name :=
  (V.calling.map fun x ↦ x.1.userid) ++ (handsOf V.fromPrimary).map Handshake.userid

/-- Whoever sends handshakes to a server gets the answer. -/
def Caller {ι : Type} [DecidableEq ι] (net : Network ι) (w : Option ι) (a : SockAddr) : Prop :=
  net.place a = w.map fun b ↦ Place.manager (some b)

/-- A replica is as it should be. -/
structure Sound {ι : Type} [DecidableEq ι] (net : Network ι) (port : UInt32) (w : Option ι)
    (V : View) : Prop where
  /-- The logins of the replica are handled in order. -/
  order : ∃ n, V.server.InOrder port n
  /-- Only logins reach the server. -/
  callers : ∀ x, x ∈ V.calling ∨ x ∈ V.forwarding → Caller net w x.2 ∧ x.1.IsLogin
  /-- The callers of the threads are known as well. -/
  threads : ∀ t ∈ V.server.threads, Caller net w t.clientAddr
  /-- The handshakes it forwards are announced one by one. -/
  forwarded : V.control.ofServer ++
      (requests V.fromServer ++ V.forwarding.toList.map fun x ↦ handshake x.1) =
    pairs .clientLogin V.unread
  /-- The handshakes that the primary propagates are announced one by one. -/
  propagated : V.control.ofPrimary ++ V.fromPrimary = pairs .propagateLogin (handsOf V.fromPrimary)
  /-- The handshakes that are on their way are logins. -/
  logins : ∀ x, x ∈ V.unread ∨ x ∈ handsOf V.fromPrimary → x.IsLogin

/-- The primary gets no answers and hears of no primary. -/
structure Heads (V : View) : Prop where
  /-- The primary's replica manager waits for its server. -/
  control : V.control = .listening ∨ V.control = .handed
  /-- The primary's replica manager gets no answers. -/
  unanswered : ∀ d ∈ V.fromServer, d.1 ≠ Kind.syn
  /-- The primary hears of no other primary. -/
  alone : V.fromPrimary = []

theorem Heads.tail {V : View} (h : V.Heads) {d : Datagram groupWire}
    {ds : List (Datagram groupWire)}
    (hd : V.fromServer = d :: ds) {c : Control} (hc : c = .listening ∨ c = .handed) :
    Heads { V with control := c, fromServer := ds } :=
  ⟨hc, fun d' hd' ↦ h.unanswered d' (hd ▸ List.mem_cons_of_mem d hd'), h.alone⟩

/-- What the primary's server has taken, a backup's takes in the same order. -/
def Relays (P B : View) : Prop :=
  P.taken = B.taken ++ B.toCome ++ P.unread.map Handshake.userid

/-! ### The moves of a replica -/

section Moves

variable {ι : Type} [DecidableEq ι] {net : Network ι} {port : UInt32} {w : Option ι} {V : View}
  {x : Handshake × SockAddr} {rest : List (Handshake × SockAddr)} {t : Threaded}
  {ds : List (Datagram groupWire)} {d : Datagram groupWire}

/-- Other logins are on their way to the server. -/
theorem Sound.call (h : V.Sound net port w)
    (hx : ∀ y ∈ rest, y ∈ V.calling ∨ Caller net w y.2 ∧ y.1.IsLogin) :
    Sound net port w { V with calling := rest } where
  order := h.order
  callers y hy := by
    rcases hy with hy | hy
    · exact (hx y hy).elim (fun hy ↦ h.callers y (.inl hy)) id
    · exact h.callers y (.inr hy)
  threads := h.threads
  forwarded := h.forwarded
  propagated := h.propagated
  logins := h.logins

/-- The server takes a handshake, and announces it. -/
theorem Sound.accept (h : V.Sound net port w) (hnone : V.forwarding = none)
    (hx : V.calling = x :: rest) : Sound net port w { V with
      calling := rest
      forwarding := some x
      fromServer := V.fromServer ++ [operation .clientLogin] } where
  order := h.order
  callers y hy := by
    rcases hy with hy | hy
    · exact h.callers y (.inl (hx ▸ List.mem_cons_of_mem x hy))
    · obtain rfl := Option.some.inj hy
      exact h.callers x (.inl (hx ▸ List.mem_cons_self))
  threads := h.threads
  forwarded := by
    have hold := h.forwarded
    simp only [unread, hnone, Option.toList_none, List.map_nil, List.append_nil] at hold
    simp [unread, requests_cons_of_ne, ← hold]
  propagated := h.propagated
  logins y hy := by
    rcases hy with hy | hy
    · simp only [unread, handsOf_append, handsOf_operation, handsOf_nil, List.append_nil,
        Option.toList_some, List.map_cons, List.map_nil, List.mem_append, List.mem_singleton] at hy
      rcases hy with hy | rfl
      · exact h.logins y (.inl (List.mem_append_left _ hy))
      · exact (h.callers x (.inl (hx ▸ List.mem_cons_self))).2
    · exact h.logins y (.inr hy)

/-- The server forwards the handshake and creates a thread. -/
theorem Sound.forward (h : V.Sound net port w) (hx : V.forwarding = some x)
    (ht : V.server.step (.arrive x.1.userid x.2) = some t) : Sound net port w { V with
      forwarding := none
      fromServer := V.fromServer ++ [handshake x.1]
      server := t } where
  order := by
    cases ht
    obtain ⟨n, hn⟩ := h.order
    exact ⟨n, hn.arrive x.2⟩
  callers y hy := by
    rcases hy with hy | hy
    · exact h.callers y (.inl hy)
    · cases hy
  threads y hy := by
    cases ht
    rcases List.mem_append.mp hy with hy | hy
    · exact h.threads y hy
    · obtain rfl := List.mem_singleton.mp hy
      exact (h.callers x (.inr hx)).1
  forwarded := by
    have hold := h.forwarded
    simp only [unread, hx, Option.toList_some, List.map_cons, List.map_nil] at hold
    simpa [unread, requests_cons_of_ne] using hold
  propagated := h.propagated
  logins y hy := by
    refine h.logins y (hy.imp_left fun hy ↦ ?_)
    simpa [unread, hx] using hy

/-- A thread makes a step, and possibly answers. -/
theorem Sound.advance (h : V.Sound net port w) {i : Nat} {unset : Bool}
    (hm : V.server.InTurn (.advance i unset)) (ht : V.server.step (.advance i unset) = some t)
    (hds : ∀ d ∈ ds, d.1 = Kind.syn) :
    Sound net port w { V with fromServer := V.fromServer ++ ds, server := t } where
  order := by
    obtain ⟨n, hn⟩ := h.order
    exact hn.step hm ht
  callers := h.callers
  threads y hy := by
    obtain ⟨y₀, hy₀, hclient⟩ := Threaded.exists_of_mem_step ht hy
    exact hclient ▸ h.threads y₀ hy₀
  forwarded := by
    obtain ⟨hreq, hhands⟩ := requests_of_forall_syn hds
    simpa [unread, hreq, hhands] using h.forwarded
  propagated := h.propagated
  logins y hy := by
    refine h.logins y (hy.imp_left fun hy ↦ ?_)
    simpa [unread, (requests_of_forall_syn hds).2] using hy

/-- The replica manager reads the announcement of its server. -/
theorem Sound.hearOperation (h : V.Sound net port w) (hc : V.control = .listening)
    (hd : V.fromServer = d :: ds) (hkind : d.1 = Kind.rmOperation) : d = operation .clientLogin ∧
      V.unread = unread { V with control := .handed, fromServer := ds } ∧
      Sound net port w { V with control := .handed, fromServer := ds } := by
  have hold := h.forwarded
  rw [hc, hd, requests_cons_of_ne (by rw [hkind]; exact Kind.noConfusion)] at hold
  obtain rfl := eq_operation_of_cons hold
  have hunread : V.unread = unread { V with control := .handed, fromServer := ds } := by
    rw [unread, hd, handsOf_operation, unread]
  refine ⟨rfl, hunread, h.order, h.callers, h.threads, hunread ▸ hold, ?_, ?_⟩
  · have hprimary := h.propagated
    rw [hc] at hprimary
    exact hprimary
  · intro y hy
    exact h.logins y (hy.imp_left fun hy ↦ hunread ▸ hy)

/-- The replica manager reads the handshake of its server. -/
theorem Sound.hearHandshake (h : V.Sound net port w) (hc : V.control = .handed)
    (hd : V.fromServer = d :: ds) (hkind : d.1 = Kind.handshake) {c : Control}
    (hs : c.ofServer = []) (hp : c.ofPrimary = []) : ∃ hand, d = handshake hand ∧ hand.IsLogin ∧
      V.unread = hand :: unread { V with control := c, fromServer := ds } ∧
      Sound net port w { V with control := c, fromServer := ds } := by
  obtain ⟨κ, hand⟩ := d
  obtain rfl : κ = Kind.handshake := hkind
  have hunread : V.unread = hand :: unread { V with control := c, fromServer := ds } := by
    rw [unread, hd]
    exact congrArg (· ++ _) handsOf_handshake
  have hold := h.forwarded
  rw [hunread, hc, hd, requests_cons_of_ne Kind.noConfusion, pairs_cons] at hold
  refine ⟨hand, rfl, h.logins hand (.inl (by rw [hunread]; exact List.mem_cons_self)),
    hunread, h.order,
    h.callers, h.threads, ?_, ?_, ?_⟩
  · rw [hs]
    exact (List.cons.inj (List.cons.inj hold).2).2
  · have hprimary := h.propagated
    rw [hc] at hprimary
    rw [hp]
    exact hprimary
  · intro y hy
    exact h.logins y (hy.imp_left fun hy ↦ by rw [hunread]; exact List.mem_cons_of_mem _ hy)

/-- The replica manager reads an answer of its server. -/
theorem Sound.hearSyn (h : V.Sound net port w) (hc : V.control = .dummySyn)
    (hd : V.fromServer = d :: ds) (hkind : d.1 = Kind.syn) :
    V.unread = unread { V with control := .listening, fromServer := ds } ∧
      Sound net port w { V with control := .listening, fromServer := ds } := by
  have hunread : V.unread = unread { V with control := .listening, fromServer := ds } := by
    simp only [unread, hd, handsOf_cons_of_ne (d := d) (by rw [hkind]; exact Kind.noConfusion)]
  have hold := h.forwarded
  rw [hunread, hc, hd, requests_cons_syn hkind] at hold
  refine ⟨hunread, h.order, h.callers, h.threads, hold, ?_, ?_⟩
  · have hprimary := h.propagated
    rw [hc] at hprimary
    exact hprimary
  · intro y hy
    exact h.logins y (hy.imp_left fun hy ↦ by rw [hunread]; exact hy)

/-- A handshake of its server is not mistaken for one of the primary. -/
theorem Sound.not_handshake (h : V.Sound net port w) (hc : V.control = .propagated)
    (hd : V.fromServer = d :: ds) : d.1 ≠ Kind.handshake := by
  intro hkind
  have hold := h.forwarded
  rw [hc, hd, requests_cons_of_ne (by rw [hkind]; exact Kind.noConfusion)] at hold
  rw [eq_operation_of_cons hold] at hkind
  cases hkind

/-- The first datagram of the primary is an announcement. -/
theorem Sound.eq_operation (h : V.Sound net port w) (hc : V.control.ofPrimary = [])
    (hd : V.fromPrimary = d :: ds) : d = operation .propagateLogin := by
  have hold := h.propagated
  rw [hc, List.nil_append] at hold
  exact eq_operation_of_cons (hd ▸ hold)

/-- The replica manager of a backup reads the announcement of the primary. -/
theorem Sound.hearPropagate (h : V.Sound net port w) (hc : V.control = .listening)
    (hd : V.fromPrimary = d :: ds) : d = operation .propagateLogin ∧
      handsOf V.fromPrimary = handsOf ds ∧
      Sound net port w { V with control := .propagated, fromPrimary := ds } := by
  obtain rfl := h.eq_operation (by rw [hc]; rfl) hd
  have hhands : handsOf V.fromPrimary = handsOf ds := by rw [hd, handsOf_operation]
  have hold := h.propagated
  rw [hhands, hc, hd] at hold
  refine ⟨rfl, hhands, h.order, h.callers, h.threads, ?_, hold, ?_⟩
  · have hserver := h.forwarded
    rw [hc] at hserver
    exact hserver
  · intro y hy
    exact h.logins y (hy.imp_right fun hy ↦ hhands ▸ hy)

/-- A handshake of the primary is sent to the server. -/
theorem Sound.hearPropagated (h : V.Sound net port w) (hc : V.control = .propagated)
    (hd : V.fromPrimary = d :: ds) (hkind : d.1 = Kind.handshake) {a : SockAddr}
    (ha : Caller net w a) : ∃ hand, d = handshake hand ∧
      handsOf V.fromPrimary = hand :: handsOf ds ∧ Sound net port w { V with
        control := .listening
        calling := V.calling ++ [(hand, a)]
        fromPrimary := ds } := by
  obtain ⟨κ, hand⟩ := d
  obtain rfl : κ = Kind.handshake := hkind
  have hhands : handsOf V.fromPrimary = hand :: handsOf ds := by rw [hd, handsOf_handshake]
  have hold := h.propagated
  rw [hhands, hc, hd, pairs_cons] at hold
  have hlogin : hand.IsLogin := h.logins hand (.inr (by rw [hhands]; exact List.mem_cons_self))
  have hsound : Sound net port w { V with control := .listening, fromPrimary := ds } := by
    refine ⟨h.order, h.callers, h.threads, ?_, (List.cons.inj (List.cons.inj hold).2).2, ?_⟩
    · have hserver := h.forwarded
      rw [hc] at hserver
      exact hserver
    · intro y hy
      exact h.logins y (hy.imp_right fun hy ↦ by rw [hhands]; exact List.mem_cons_of_mem _ hy)
  refine ⟨hand, rfl, hhands, hsound.call fun y hy ↦ (List.mem_append.mp hy).imp_right fun hy ↦ ?_⟩
  rw [List.mem_singleton.mp hy]
  exact ⟨ha, hlogin⟩

/-- The primary propagates a login. -/
theorem Sound.propagate (h : V.Sound net port w) {hand : Handshake} (hlogin : hand.IsLogin) :
    Sound net port w { V with
      fromPrimary := V.fromPrimary ++ [operation .propagateLogin, handshake hand] } where
  order := h.order
  callers := h.callers
  threads := h.threads
  forwarded := h.forwarded
  propagated := by
    have hold := h.propagated
    simp only [handsOf_append, handsOf_operation, handsOf_handshake, handsOf_nil, pairs_append,
      pairs_cons, pairs_nil, ← hold, List.append_assoc]
  logins y hy := by
    rcases hy with hy | hy
    · exact h.logins y (.inl hy)
    · simp only [handsOf_append, handsOf_operation, handsOf_handshake, handsOf_nil,
        List.mem_append, List.mem_singleton] at hy
      rcases hy with hy | rfl
      · exact h.logins y (.inr hy)
      · exact hlogin

end Moves

end View
end Bropdox
