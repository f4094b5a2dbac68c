import Bropdox.ReplicaManager
import Bropdox.Session.Monologue

/-!
# Running two replica managers against each other

The rules of `Session/Pair.lean` at two replica managers, in the form `simp` uses them.  What either
side sends to the group goes to the other side as often as that is in the group, and is kept as mail
for everybody else; a rule for `multicast` is all that takes.
-/

set_option autoImplicit false

namespace Bropdox

open FileSystem Session Program ReplicaManager

/-- Two replica managers, at their addresses. -/
@[reducible] def replicas (left right : SockAddr) : Session.Link groupWire sig sig where
  leftBody := body
  rightBody := body
  leftAddr := left
  rightAddr := right

/-- A session of two replica managers in the middle. -/
abbrev ReplicaPair (α β : Type) := Pair groupWire sig sig α β

/-- A datagram of a replica manager, and where it comes from or goes to. -/
abbrev letter (a : SockAddr) (κ : Kind) (m : κ.Msg) : Parcel groupWire := (a, ⟨κ, m⟩)

namespace Members

section Rules

variable {a b : SockAddr} {α β : Type} {h h' : Host} {l : Endpoint groupWire sig α}
  {r : Endpoint groupWire sig β} {i j : Inbox groupWire} {m m' : List (Parcel groupWire)}
  {t : ReplicaPair α β}

@[simp] theorem left_get {k : Host → Prog α} :
    Pair.EndsIn (replicas a b) ⟨⟨h, get.bind k⟩, r, i, j, m, m'⟩ t ↔
      Pair.EndsIn (replicas a b) ⟨⟨h, k h⟩, r, i, j, m, m'⟩ t :=
  Pair.left_run rfl

@[simp] theorem left_update {f : Host → Host} {k : Unit → Prog α} :
    Pair.EndsIn (replicas a b) ⟨⟨h, (update f).bind k⟩, r, i, j, m, m'⟩ t ↔
      Pair.EndsIn (replicas a b) ⟨⟨f h, k ()⟩, r, i, j, m, m'⟩ t :=
  Pair.left_run rfl

@[simp] theorem left_sendTo {κ : Kind} {d : κ.Msg} {k : Unit → Prog α} :
    Pair.EndsIn (replicas a b) ⟨⟨h, (sendTo b κ d).bind k⟩, r, i, j, m, m'⟩ t ↔
      Pair.EndsIn (replicas a b) ⟨⟨h, k ()⟩, r, i, deliver j [letter a κ d], m, m'⟩ t :=
  Pair.left_emit

@[simp] theorem left_wait {κ : Kind} {d : κ.Msg} {c : SockAddr} {rest : List (Parcel groupWire)}
    {k : Option κ.Msg → Prog α} :
    Pair.EndsIn (replicas a b) ⟨⟨h, @Program.bind groupWire sig (no_index (Option κ.Msg)) α
        (waitPacket κ) k⟩, r, some (letter c κ d :: rest), j, m, m'⟩ t ↔
      Pair.EndsIn (replicas a b) ⟨⟨h, k (some d)⟩, r, some rest, j, m, m'⟩ t :=
  Pair.left_await

@[simp] theorem left_waitFrom {κ : Kind} {d : κ.Msg} {c : SockAddr}
    {rest : List (Parcel groupWire)} {k : Option (SockAddr × κ.Msg) → Prog α} :
    Pair.EndsIn (replicas a b) ⟨⟨h, @Program.bind groupWire sig
        (no_index (Option (SockAddr × κ.Msg))) α (awaitFrom (W := groupWire) κ) k⟩, r,
        some (letter c κ d :: rest), j, m, m'⟩ t ↔
      Pair.EndsIn (replicas a b) ⟨⟨h, k (some (c, d))⟩, r, some rest, j, m, m'⟩ t :=
  Pair.left_awaitFrom

theorem left_callListen {k : Unit → Prog α} :
    Pair.EndsIn (replicas a b) ⟨⟨h, callListen.bind k⟩, r, i, j, m, m'⟩ t ↔
      Pair.EndsIn (replicas a b) ⟨⟨h, listen.bind k⟩, r, i, j, m, m'⟩ t :=
  Pair.left_invoke

@[simp] theorem right_get {k : Host → Prog β} :
    Pair.EndsIn (replicas a b) ⟨l, ⟨h', get.bind k⟩, i, j, m, m'⟩ t ↔
      Pair.EndsIn (replicas a b) ⟨l, ⟨h', k h'⟩, i, j, m, m'⟩ t :=
  Pair.right_run rfl

@[simp] theorem right_update {f : Host → Host} {k : Unit → Prog β} :
    Pair.EndsIn (replicas a b) ⟨l, ⟨h', (update f).bind k⟩, i, j, m, m'⟩ t ↔
      Pair.EndsIn (replicas a b) ⟨l, ⟨f h', k ()⟩, i, j, m, m'⟩ t :=
  Pair.right_run rfl

@[simp] theorem right_sendTo {κ : Kind} {d : κ.Msg} {k : Unit → Prog β} :
    Pair.EndsIn (replicas a b) ⟨l, ⟨h', (sendTo a κ d).bind k⟩, i, j, m, m'⟩ t ↔
      Pair.EndsIn (replicas a b) ⟨l, ⟨h', k ()⟩, deliver i [letter b κ d], j, m, m'⟩ t :=
  Pair.right_emit

@[simp] theorem right_wait {κ : Kind} {d : κ.Msg} {c : SockAddr} {rest : List (Parcel groupWire)}
    {k : Option κ.Msg → Prog β} :
    Pair.EndsIn (replicas a b) ⟨l, ⟨h', @Program.bind groupWire sig (no_index (Option κ.Msg)) β
        (waitPacket κ) k⟩, i, some (letter c κ d :: rest), m, m'⟩ t ↔
      Pair.EndsIn (replicas a b) ⟨l, ⟨h', k (some d)⟩, i, some rest, m, m'⟩ t :=
  Pair.right_await

@[simp] theorem right_waitFrom {κ : Kind} {d : κ.Msg} {c : SockAddr}
    {rest : List (Parcel groupWire)} {k : Option (SockAddr × κ.Msg) → Prog β} :
    Pair.EndsIn (replicas a b) ⟨l, ⟨h', @Program.bind groupWire sig
        (no_index (Option (SockAddr × κ.Msg))) β (awaitFrom (W := groupWire) κ) k⟩, i,
        some (letter c κ d :: rest), m, m'⟩ t ↔
      Pair.EndsIn (replicas a b) ⟨l, ⟨h', k (some (c, d))⟩, i, some rest, m, m'⟩ t :=
  Pair.right_awaitFrom

theorem right_callListen {k : Unit → Prog β} :
    Pair.EndsIn (replicas a b) ⟨l, ⟨h', callListen.bind k⟩, i, j, m, m'⟩ t ↔
      Pair.EndsIn (replicas a b) ⟨l, ⟨h', listen.bind k⟩, i, j, m, m'⟩ t :=
  Pair.right_invoke

theorem right_callReceiveMembers {peer : SockAddr} {k : SockAddr → Prog β} :
    Pair.EndsIn (replicas a b) ⟨l, ⟨h', (callReceiveMembers peer).bind k⟩, i, j, m, m'⟩ t ↔
      Pair.EndsIn (replicas a b) ⟨l, ⟨h', (receiveMembers peer).bind k⟩, i, j, m, m'⟩ t :=
  Pair.right_invoke

/-! Speaking to the group. -/

/-- What a multicast sends. -/
def toAll (κ : Kind) (d : κ.Msg) (addresses : List SockAddr) : List (Parcel groupWire) :=
  addresses.map fun c ↦ letter c κ d

theorem forPeer_toAll (a b : SockAddr) (κ : Kind) (d : κ.Msg) (addresses : List SockAddr) :
    forPeer a b (toAll κ d addresses) = .replicate (addresses.count b) (letter a κ d) := by
  induction addresses with
  | nil => rfl
  | cons c addresses ih =>
    have hcons : forPeer a b (toAll κ d (c :: addresses))
        = (if c = b then [letter a κ d] else []) ++ forPeer a b (toAll κ d addresses) := by
      by_cases hc : c = b <;> simp [toAll, forPeer, hc]
    rw [hcons, ih, List.count_cons]
    by_cases hc : c = b <;> simp [hc, List.replicate_succ]

end Rules

section Speaking

variable {α γ : Type} {h s : Host} {out : List (Parcel groupWire)} {e : Endpoint groupWire sig γ}

theorem says_sendToAll {κ : Kind} {d : κ.Msg} (addresses : List SockAddr) {k : Unit → Prog γ}
    (hs : Endpoint.Says body ⟨h, k ()⟩ out e) :
    Endpoint.Says body ⟨h, (sendToAll κ d addresses).bind k⟩ (toAll κ d addresses ++ out) e := by
  induction addresses with
  | nil => exact hs
  | cons c addresses ih =>
    rw [sendToAll, bind_eq, bind_assoc]
    exact .emit ih

theorem says_get {k : Host → Prog γ} (hs : Endpoint.Says body ⟨h, k h⟩ out e) :
    Endpoint.Says body ⟨h, get.bind k⟩ out e :=
  .run rfl hs

theorem says_update {f : Host → Host} {k : Unit → Prog γ}
    (hs : Endpoint.Says body ⟨f h, k ()⟩ out e) :
    Endpoint.Says body ⟨h, (update f).bind k⟩ out e :=
  .run rfl hs

/-- A multicast is for everybody in the group. -/
theorem says_multicast {κ : Kind} {d : κ.Msg} {k : Unit → Prog γ}
    (hs : Endpoint.Says body ⟨h, k ()⟩ out e) :
    Endpoint.Says body ⟨h, (multicast κ d).bind k⟩ (toAll κ d h.group.values ++ out) e := by
  rw [multicast, bind_eq, bind_assoc]
  exact says_get (says_sendToAll _ hs)

@[simp] theorem left_multicast {a b : SockAddr} {β : Type} {r : Endpoint groupWire sig β}
    {i j : Inbox groupWire} {m m' : List (Parcel groupWire)} {t : ReplicaPair α β} {κ : Kind}
    {d : κ.Msg} {k : Unit → Prog α} :
    Pair.EndsIn (replicas a b) ⟨⟨h, (multicast κ d).bind k⟩, r, i, j, m, m'⟩ t ↔
      Pair.EndsIn (replicas a b) ⟨⟨h, k ()⟩, r, i,
        deliver j (forPeer a b (toAll κ d h.group.values)),
        m ++ forOthers b (toAll κ d h.group.values), m'⟩ t := by
  rw [Pair.endsIn_says (L := replicas a b) (says_multicast (.refl ⟨h, k ()⟩)), List.append_nil]

end Speaking
end Members
end Bropdox
