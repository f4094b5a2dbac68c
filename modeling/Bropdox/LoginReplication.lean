import Bropdox.Interleaving
import Bropdox.LoginViews

/-!
# The login tables of the backups

Each replica of the server has a table of logins with the port that every device was given.  The
primary fills its table as its threads happen to run, and a backup fills its own by repeating the
logins that its replica manager has been told of.  This file is about the two tables being the same.

A backup executes the logins in the order in which the primary's server has taken them, if nothing
comes between the two datagrams of a request.  The primary executes them in that order, if its
threads take their steps in turn.  Both conditions are needed: `tables_differ` is a run in which the
threads of the primary reserve their ports in the other order.

## What is here

* `Course` is what a replica manager that is in the middle of something is about to say, and where
  it waits then; `Tracked` says that the replica managers follow their courses.  A move that reads
  nothing leaves the views of the replicas as they are (`Tracked.talk`), and the others do to them
  what `LoginViews.lean` speaks of (`Tracked.hear` and the lemmas after it).
* `Follows` is the invariant of a run: each replica, seen from its server, has handled a beginning
  of what the primary's server took, and is about to hear of the rest.
* `Follows.step` carries it through the moves that are `Proper`, one lemma for each kind of datagram
  that a replica manager reads (`follows_primary`, `follows_backup_fromServer`,
  `follows_backup_fromPrimary`).
* `login_tables_agree`: in a run whose moves are proper the tables agree whenever everything has
  been handled, for every network, every number of backups and every faithful reading of datagrams.
* `oneBackup` is a primary with one backup, on which the condition and the conclusion are evaluated.
-/

set_option autoImplicit false

namespace Bropdox

open FileSystem Session Program ReplicaManager

/-! ## All replicas

The state of a replica is seen from its server: what the replica manager is about to say counts as
said.  This is what makes the moves of a replica manager invisible that only carry on with
something. -/

namespace Sites

variable {ι : Type} [DecidableEq ι]

/-- What the replica managers are about to say, and where they wait then. -/
structure Course (ι : Type) where
  /-- Where they wait. -/
  control : Option ι → Control
  /-- What they say. -/
  pending : Option ι → List (Parcel groupWire)

section Tracking

variable (net : Network ι) (read : Reading groupWire)

/-- The replicas, seen from their servers. -/
def view (s : Sites ι) (c : Course ι) (w : Option ι) : View where
  control := c.control w
  calling := (s w).handshakes ++ calls net read (.manager w) w (c.pending w)
  forwarding := (s w).forwarding
  fromServer := (s w).inbox (.server w)
  fromPrimary := (s w).inbox (.manager none) ++ letters net w (c.pending none)
  server := (s w).server

/-- The replica managers are in the middle of these courses. -/
structure Tracked (s : Sites ι) (c : Course ι) : Prop where
  /-- The replica managers say what they are about to say, and wait where their course ends. -/
  course : ∀ w, Endpoint.Says body (s w).manager (c.pending w)
    ⟨net.host w, (c.control w).prog (net.host w)⟩
  /-- Replica managers send handshakes to their own servers only. -/
  toServer : ∀ v w, v ≠ w → calls net read (.manager w) v (c.pending w) = []
  /-- A backup says nothing to other replica managers. -/
  toGroup : ∀ b v, letters net v (c.pending (some b)) = []
  /-- A replica manager hears of nobody but its server and the primary. -/
  quiet : ∀ v p, p ≠ .server v → p ≠ .manager none → (s v).inbox p = []

end Tracking

variable {net : Network ι} {read : Reading groupWire} {port : UInt32} {s : Sites ι} {c : Course ι}
  {w : Option ι} {x : Site ι} {ps : List (Parcel groupWire)} {V : Option ι → View}

@[simp] theorem view_forwarding : (view net read s c w).forwarding = (s w).forwarding := rfl

@[simp] theorem view_calling : (view net read s c w).calling =
    (s w).handshakes ++ calls net read (.manager w) w (c.pending w) := rfl

@[simp] theorem view_fromServer : (view net read s c w).fromServer = (s w).inbox (.server w) := rfl

@[simp] theorem view_server : (view net read s c w).server = (s w).server := rfl

/-- A move of a server. -/
theorem Tracked.serve (h : Tracked net read s c) (w : Option ι) (x : Site ι)
    (ps : List (Parcel groupWire)) (hm : x.manager = (s w).manager)
    (hi : x.inbox = (s w).inbox) (hc : ∀ v, calls net read (.server w) v ps = [])
    (hl : ∀ v, v ≠ w → letters net v ps = []) :
    Tracked net read (send net read (.server w) (Function.update s w x) ps) c ∧
      view net read (send net read (.server w) (Function.update s w x) ps) c =
        Function.update (view net read s c) w { view net read s c w with
          calling := x.handshakes ++ calls net read (.manager w) w (c.pending w)
          forwarding := x.forwarding
          fromServer := (s w).inbox (.server w) ++ letters net w ps
          server := x.server } := by
  refine ⟨{ course := fun v ↦ ?_, toServer := h.toServer, toGroup := h.toGroup,
            quiet := fun v p hp hp' ↦ ?_ }, funext fun v ↦ ?_⟩
  · by_cases hv : v = w
    · subst hv
      simpa [send_apply, hm] using h.course v
    · simpa [send_apply, hv] using h.course v
  · by_cases hv : v = w
    · subst hv
      simpa [send_apply, hi, hp] using h.quiet v p hp hp'
    · by_cases hs : p = .server w
      · subst hs
        simpa [send_apply, hv, hl v hv] using h.quiet v _ hp hp'
      · simpa [send_apply, hv, hs] using h.quiet v p hp hp'
  · by_cases hv : v = w
    · subst hv
      simp [view, send_apply, hi, hc]
    · simp [view, send_apply, hv, hc, hl v hv]

/-- What a replica manager sends. -/
theorem talk_apply (e : Endpoint groupWire sig Unit) (inbox : Place ι → List (Datagram groupWire))
    (out : List (Parcel groupWire)) (v : Option ι) :
    send net read (.manager w) (Function.update s w { s w with manager := e, inbox }) out v =
      { s v with
        manager := if v = w then e else (s v).manager
        inbox := fun p ↦ (if v = w then inbox p else (s v).inbox p) ++
          if p = .manager w then letters net v out else []
        handshakes := (s v).handshakes ++ calls net read (.manager w) v out } := by
  rw [send_apply]
  by_cases hv : v = w
  · subst hv
    simp only [Function.update_self, if_true, Site.mk.injEq, and_true, true_and]
    funext p
    by_cases hp : p = .manager v <;> simp [hp]
  · simp only [Function.update_of_ne hv, if_neg hv, Site.mk.injEq, and_true, true_and]
    funext p
    by_cases hp : p = .manager w <;> simp [hp]

/-- What a replica manager says is on its way, or has arrived. -/
theorem Tracked.split (h : Tracked net read s c) {out out' : List (Parcel groupWire)}
    (hout : c.pending w = out ++ out') (v : Option ι) :
    (v ≠ w → calls net read (.manager w) v out = [] ∧ calls net read (.manager w) v out' = []) ∧
      (w ≠ none → letters net v out = [] ∧ letters net v out' = []) := by
  constructor
  · intro hv
    have hall := h.toServer v w hv
    rwa [hout, calls_append, List.append_eq_nil_iff] at hall
  · intro hw
    obtain ⟨b, rfl⟩ := Option.ne_none_iff_exists'.mp hw
    have hall := h.toGroup b v
    rwa [hout, letters_append, List.append_eq_nil_iff] at hall

/-- Where nothing was to come, nothing comes when a replica manager says what it is about to say. -/
theorem Tracked.quiet_talk (h : Tracked net read s c) {out out' : List (Parcel groupWire)}
    (hout : c.pending w = out ++ out') {e : Endpoint groupWire sig Unit} {v : Option ι}
    {p : Place ι} (hp : p ≠ .server v) (hp' : p ≠ .manager none) :
    (send net read (.manager w)
      (Function.update s w { s w with manager := e, inbox := (s w).inbox }) out v).inbox p
        = [] := by
  have hinbox : (if v = w then (s w).inbox p else (s v).inbox p) = [] := by
    split
    · subst v
      exact h.quiet w p hp hp'
    · exact h.quiet v p hp hp'
  have hletters : (if p = .manager w then letters net v out else []) = [] := by
    split
    · subst p
      exact ((h.split hout v).2 fun hw ↦ hp' (hw ▸ rfl)).1
    · rfl
  rw [talk_apply]
  exact List.append_eq_nil_iff.mpr ⟨hinbox, hletters⟩

/-- What a replica manager is about to say counts as said, so that nothing changes when it is. -/
theorem Tracked.view_talk (h : Tracked net read s c) {out out' : List (Parcel groupWire)}
    (hout : c.pending w = out ++ out') {e : Endpoint groupWire sig Unit} :
    view net read (send net read (.manager w)
        (Function.update s w { s w with manager := e, inbox := (s w).inbox }) out)
        { c with pending := Function.update c.pending w out' } = view net read s c := by
  refine funext fun v ↦ ?_
  have hsame : ∀ p, (if v = w then (s w).inbox p else (s v).inbox p) = (s v).inbox p := by
    intro p
    split
    · subst v
      rfl
    · rfl
  have hcalling : calls net read (.manager w) v out ++
      calls net read (.manager v) v (Function.update c.pending w out' v) =
        calls net read (.manager v) v (c.pending v) := by
    by_cases hv : v = w
    · subst hv
      rw [Function.update_self, hout, calls_append]
    · rw [Function.update_of_ne hv, ((h.split hout v).1 hv).1, List.nil_append]
  have hprimary : (if Place.manager none = .manager w then letters net v out else []) ++
      letters net v (Function.update c.pending w out' none) = letters net v (c.pending none) := by
    by_cases hw : w = none
    · subst hw
      rw [if_pos rfl, Function.update_self, hout, letters_append]
    · rw [if_neg fun hp ↦ hw (Place.manager.inj hp).symm, Function.update_of_ne (Ne.symm hw),
        List.nil_append]
  simp only [view, talk_apply, hsame, List.append_assoc, hcalling, hprimary, reduceCtorEq,
    if_false, List.append_nil]

/-- A move of a replica manager that reads nothing changes nothing. -/
theorem Tracked.talk (h : Tracked net read s c) {out out' : List (Parcel groupWire)}
    (hout : c.pending w = out ++ out') {e : Endpoint groupWire sig Unit}
    (he : Endpoint.Says body e out' ⟨net.host w, (c.control w).prog (net.host w)⟩) :
    Tracked net read (send net read (.manager w)
        (Function.update s w { s w with manager := e, inbox := (s w).inbox }) out)
        { c with pending := Function.update c.pending w out' } ∧
      view net read (send net read (.manager w)
          (Function.update s w { s w with manager := e, inbox := (s w).inbox }) out)
        { c with pending := Function.update c.pending w out' } = view net read s c := by
  refine ⟨{ course := fun v ↦ ?_, toServer := fun v w' hv ↦ ?_, toGroup := fun b v ↦ ?_,
            quiet := fun v p hp hp' ↦ h.quiet_talk hout hp hp' }, h.view_talk hout⟩
  · by_cases hv : v = w
    · subst hv
      simpa [talk_apply] using he
    · simpa [talk_apply, hv] using h.course v
  · by_cases hw : w' = w
    · subst hw
      simpa using ((h.split hout v).1 hv).2
    · simpa [hw] using h.toServer v w' hv
  · by_cases hw : some b = w
    · subst hw
      simpa using ((h.split hout v).2 (Option.some_ne_none b)).2
    · simpa [hw] using h.toGroup b v

/-- The views after a replica manager has read something: what it will say is said at once. -/
theorem view_hear (hnone : c.pending w = []) (sender : Place ι) (ds : List (Datagram groupWire))
    {e : Endpoint groupWire sig Unit} {out : List (Parcel groupWire)} {k : Control}
    (v : Option ι) :
    view net read (Function.update s w
        { s w with manager := e, inbox := Function.update (s w).inbox sender ds })
        ⟨Function.update c.control w k, Function.update c.pending w out⟩ v =
      { view net read s c v with
        control := Function.update c.control w k v
        calling := (view net read s c v).calling ++
          if v = w then calls net read (.manager w) w out else []
        fromServer :=
          (if v = w then Function.update (s w).inbox sender ds else (s v).inbox) (.server v)
        fromPrimary :=
          (if v = w then Function.update (s w).inbox sender ds else (s v).inbox)
            (.manager none) ++
            (letters net v (c.pending none) ++ if w = none then letters net v out else []) } := by
  have hprimary : letters net v (Function.update c.pending w out none) =
      letters net v (c.pending none) ++ if w = none then letters net v out else [] := by
    by_cases hw : w = none
    · subst hw
      simp [hnone]
    · simp [hw, Function.update_of_ne (Ne.symm hw)]
  by_cases hv : v = w
  · subst hv
    simp only [view, hprimary, hnone, calls_nil, Function.update_self, if_true, List.append_nil]
  · simp only [view, hprimary, Function.update_of_ne hv, if_neg hv, List.append_nil]

/-- A move of a replica manager that reads: what it is going to say is said at once. -/
theorem Tracked.hear (h : Tracked net read s c) (hnone : c.pending w = []) (sender : Place ι)
    (ds : List (Datagram groupWire)) {e : Endpoint groupWire sig Unit}
    {out : List (Parcel groupWire)} {k : Control}
    (he : Endpoint.Says body e out ⟨net.host w, k.prog (net.host w)⟩)
    (hc : ∀ v, v ≠ w → calls net read (.manager w) v out = [])
    (hl : w ≠ none → ∀ v, letters net v out = [])
    (hq : sender ≠ .server w → sender ≠ .manager none → ds = []) :
    Tracked net read (Function.update s w
        { s w with manager := e, inbox := Function.update (s w).inbox sender ds })
        ⟨Function.update c.control w k, Function.update c.pending w out⟩ ∧
      ∀ v, view net read (Function.update s w
          { s w with manager := e, inbox := Function.update (s w).inbox sender ds })
          ⟨Function.update c.control w k, Function.update c.pending w out⟩ v =
        { view net read s c v with
          control := Function.update c.control w k v
          calling := (view net read s c v).calling ++
            if v = w then calls net read (.manager w) w out else []
          fromServer :=
            (if v = w then Function.update (s w).inbox sender ds else (s v).inbox) (.server v)
          fromPrimary :=
            (if v = w then Function.update (s w).inbox sender ds else (s v).inbox)
              (.manager none) ++
              (letters net v (c.pending none) ++ if w = none then letters net v out else []) } := by
  refine ⟨{ course := fun v ↦ ?_, toServer := fun v w' hv ↦ ?_, toGroup := fun b v ↦ ?_,
            quiet := fun v p hp hp' ↦ ?_ }, view_hear hnone sender ds⟩
  · by_cases hv : v = w
    · subst hv
      simpa using he
    · simpa [hv] using h.course v
  · by_cases hw : w' = w
    · subst hw
      simpa using hc v hv
    · simpa [hw] using h.toServer v w' hv
  · by_cases hw : some b = w
    · subst hw
      simpa using hl (Option.some_ne_none b) v
    · simpa [hw] using h.toGroup b v
  · by_cases hv : v = w
    · subst hv
      by_cases hs : p = sender
      · subst hs
        simpa using hq hp hp'
      · simpa [hs] using h.quiet v p hp hp'
    · simpa [hv] using h.quiet v p hp hp'

/-- The replica manager of a backup reads what its server sent. -/
theorem Tracked.hearServer (h : Tracked net read s c) (hnone : c.pending w = [])
    (ds : List (Datagram groupWire)) {e : Endpoint groupWire sig Unit} {k : Control}
    (he : Endpoint.Says body e [] ⟨net.host w, k.prog (net.host w)⟩) :
    Tracked net read (Function.update s w
        { s w with manager := e, inbox := Function.update (s w).inbox (.server w) ds })
        ⟨Function.update c.control w k, Function.update c.pending w []⟩ ∧
      view net read (Function.update s w
          { s w with manager := e, inbox := Function.update (s w).inbox (.server w) ds })
          ⟨Function.update c.control w k, Function.update c.pending w []⟩ =
        Function.update (view net read s c) w
          { view net read s c w with control := k, fromServer := ds } := by
  obtain ⟨htracked, hview⟩ := h.hear hnone (.server w) ds he (fun _ _ ↦ calls_nil)
    (fun _ _ ↦ letters_nil) fun hne ↦ absurd rfl hne
  refine ⟨htracked, funext fun v ↦ ?_⟩
  rw [hview v]
  by_cases hv : v = w
  · subst hv
    simp [view]
  · simp [view, hv]

/-- The replica manager of a backup reads what the primary sent. -/
theorem Tracked.hearPrimary (h : Tracked net read s c) (hnone : c.pending w = []) (hw : w ≠ none)
    (ds : List (Datagram groupWire)) {e : Endpoint groupWire sig Unit} {k : Control}
    {out : List (Parcel groupWire)}
    (he : Endpoint.Says body e out ⟨net.host w, k.prog (net.host w)⟩)
    (hc : ∀ v, v ≠ w → calls net read (.manager w) v out = [])
    (hl : ∀ v, letters net v out = []) :
    Tracked net read (Function.update s w
        { s w with manager := e, inbox := Function.update (s w).inbox (.manager none) ds })
        ⟨Function.update c.control w k, Function.update c.pending w out⟩ ∧
      view net read (Function.update s w
          { s w with manager := e, inbox := Function.update (s w).inbox (.manager none) ds })
          ⟨Function.update c.control w k, Function.update c.pending w out⟩ =
        Function.update (view net read s c) w { view net read s c w with
          control := k
          calling := (view net read s c w).calling ++ calls net read (.manager w) w out
          fromPrimary := ds ++ letters net w (c.pending none) } := by
  obtain ⟨htracked, hview⟩ := h.hear hnone (.manager none) ds he hc (fun _ ↦ hl)
    fun _ hne ↦ absurd rfl hne
  refine ⟨htracked, funext fun v ↦ ?_⟩
  rw [hview v]
  by_cases hv : v = w
  · subst hv
    simp [view, hw]
  · simp [view, hv, hw]

/-- What is sent to the group arrives at every backup once. -/
theorem letters_toAll (net : Network ι) (κ : Kind) (m : κ.Msg) (v : Option ι) :
    letters net v (Members.toAll κ m (net.host none).group.values) =
      if v.isSome then [⟨κ, m⟩] else [] := by
  have hcount : ∀ as : List SockAddr, letters net v (Members.toAll κ m as) =
      .replicate ((as.map net.place).count (some (.manager v))) ⟨κ, m⟩ := by
    intro as
    induction as with
    | nil => rfl
    | cons a as ih =>
      have hcons : letters net v (Members.toAll κ m (a :: as)) =
          letters net v [letter a κ m] ++ letters net v (Members.toAll κ m as) := by
        rw [← letters_append]
        rfl
      rw [hcons, ih, List.map_cons, List.count_cons]
      by_cases ha : net.place a = some (.manager v)
      · simp [letters, ha, List.replicate_succ]
      · simp [letters, ha]
  rw [hcount, net.joined, Place.ofBackup]
  cases v.isSome <;> rfl

/-- What is sent to the group arrives at no server. -/
theorem calls_toAll (net : Network ι) (read : Reading groupWire) (p : Place ι)
    (κ : Kind) (m : κ.Msg)
    (v : Option ι) :
    calls net read p v (Members.toAll κ m (net.host none).group.values) = [] := by
  have hnone := net.joined (.server v)
  rw [Place.ofBackup, if_neg Bool.false_ne_true, List.count_eq_zero] at hnone
  rw [calls, List.filter_eq_nil_iff.mpr, List.filterMap_nil]
  intro x hx hplace
  obtain ⟨a, ha, rfl⟩ := List.mem_map.mp hx
  exact hnone (List.mem_map.mpr ⟨a, ha, of_decide_eq_true hplace⟩)

/-- The primary propagates a handshake. -/
theorem Tracked.propagate (h : Tracked net read s c) (hnone : c.pending none = [])
    {e : Endpoint groupWire sig Unit} {hand : Handshake} {ds : List (Datagram groupWire)}
    (he : Endpoint.Says body e
      (Members.toAll .rmOperation ⟨.propagateLogin⟩ (net.host none).group.values ++
        Members.toAll .handshake hand (net.host none).group.values)
      ⟨net.host none, Control.prog (net.host none) .listening⟩) :
    ∃ c', Tracked net read (Function.update s none
        { s none with
          manager := e, inbox := Function.update (s none).inbox (.server none) ds }) c' ∧
      view net read (Function.update s none { s none with
          manager := e, inbox := Function.update (s none).inbox (.server none) ds }) c' none =
        { view net read s c none with control := .listening, fromServer := ds } ∧
      ∀ b, view net read (Function.update s none { s none with
          manager := e, inbox := Function.update (s none).inbox (.server none) ds }) c' (some b) =
        { view net read s c (some b) with
          fromPrimary := (view net read s c (some b)).fromPrimary ++
            [operation .propagateLogin, handshake hand] } := by
  obtain ⟨htracked, hview⟩ := h.hear hnone (.server none) ds he
    (fun v _ ↦ by rw [calls_append, calls_toAll, calls_toAll, List.append_nil])
    (fun hw ↦ absurd rfl hw) fun hne ↦ absurd rfl hne
  simp only [letters_append, letters_toAll, calls_append, calls_toAll] at hview
  refine ⟨_, htracked, ?_, fun b ↦ ?_⟩
  · rw [hview none]
    simp [view]
  · rw [hview (some b)]
    simp [view]

/-! ## They agree

What holds of all replicas together, and the condition on the moves. -/

/-- The replicas, seen from their servers, are as they should be. -/
structure Consistent (net : Network ι) (port : UInt32) (V : Option ι → View) : Prop where
  /-- Each of them is. -/
  sound : ∀ w, (V w).Sound net port w
  /-- The first one is the primary. -/
  heads : (V none).Heads
  /-- The backups follow the primary. -/
  relays : ∀ b, (V none).Relays (V (some b))

/-- The replicas stay consistent when one view changes as it should. -/
theorem Consistent.update (h : Consistent net port V) {X : View} (hX : X.Sound net port w)
    (hh : w = none → X.Heads)
    (hp : w = none → ∀ us, (V none).taken = us ++ (V none).unread.map Handshake.userid →
      X.taken = us ++ X.unread.map Handshake.userid)
    (hb : w ≠ none → X.taken ++ X.toCome = (V w).taken ++ (V w).toCome) :
    Consistent net port (Function.update V w X) := by
  constructor
  · intro v
    by_cases hv : v = w
    · subst hv
      rwa [Function.update_self]
    · rw [Function.update_of_ne hv]
      exact h.sound v
  · by_cases hw : w = none
    · subst hw
      rw [Function.update_self]
      exact hh rfl
    · rw [Function.update_of_ne (Ne.symm hw)]
      exact h.heads
  · intro b
    by_cases hw : w = none
    · subst hw
      rw [Function.update_self, Function.update_of_ne (Option.some_ne_none b)]
      exact hp rfl _ (h.relays b)
    · rw [Function.update_of_ne (Ne.symm hw)]
      by_cases hv : some b = w
      · subst hv
        rw [Function.update_self, View.Relays, hb hw]
        exact h.relays b
      · rw [Function.update_of_ne hv]
        exact h.relays b

/-- Where the replicas are in a run. -/
def Follows (net : Network ι) (read : Reading groupWire) (port : UInt32) (s : Sites ι) : Prop :=
  ∃ c, Tracked net read s c ∧ Consistent net port (view net read s c)

/-- A move is as it should be: the threads of the logins take their steps in turn, and a replica
manager reads only what it is waiting for. -/
def Proper (s : Sites ι) : Happening ι → Prop
  | .client _ _ | .accept _ | .forward _ => True
  | .advance w i unset => (s w).server.InTurn (.advance i unset)
  | .manage w sender => ∀ κ k, (s w).manager.prog = .wait κ k →
    ∀ d ∈ ((s w).inbox sender).head?, d.1 = κ

/-- Everything has been handled. -/
structure Settled (s : Sites ι) : Prop where
  /-- No handshake waits for a server. -/
  handshakes : ∀ w, (s w).handshakes = []
  /-- None is on its way to a replica manager. -/
  forwarding : ∀ w, (s w).forwarding = none
  /-- No datagram waits for one. -/
  inbox : ∀ w p, (s w).inbox p = []
  /-- All of them wait for something. -/
  waiting : ∀ w, ∃ κ k, (s w).manager.prog = .wait κ k
  /-- All logins have been answered. -/
  answered : ∀ w, (s w).server.Answered

/-- When everything has been handled, the login tables agree. -/
def Agree (s : Sites ι) : Prop :=
  s.Settled → ∀ b u device port,
    (∃ c, (s none).server.server.LoggedIn u device c ∧ c.port = port) ↔
      ∃ c, (s (some b)).server.server.LoggedIn u device c ∧ c.port = port

theorem Follows.agree (h : Follows net read port s) : Agree s := by
  intro hs b u device q
  obtain ⟨c, ht, hc⟩ := h
  -- nobody is about to say anything
  have hpending : ∀ w, c.pending w = [] := by
    intro w
    obtain ⟨κ, k, hk⟩ := hs.waiting w
    have hcourse := ht.course w
    rw [show (s w).manager = ⟨(s w).manager.host, .wait κ k⟩ by rw [← hk]] at hcourse
    exact hcourse.of_wait.1
  have hunread : (view net read s c none).unread = [] := by
    simp [View.unread, view, hs.inbox, hs.forwarding]
  have hcome : (view net read s c (some b)).toCome = [] := by
    simp [View.toCome, view, hs.inbox, hs.handshakes, hpending]
  have htaken : ∀ w, (view net read s c w).taken = (s w).server.users := by
    simp [View.taken, view, hs.forwarding]
  have husers : (s none).server.users = (s (some b)).server.users := by
    have hrelays := hc.relays b
    rwa [View.Relays, hunread, hcome, htaken, htaken, List.map_nil, List.append_nil,
      List.append_nil] at hrelays
  have horder : ∀ w, ∃ n, (s w).server.InOrder port n := fun w ↦ (hc.sound w).order
  obtain ⟨n, hP⟩ := horder none
  obtain ⟨n', hB⟩ := horder (some b)
  rw [hP.loggedIn_iff (hs.answered none), hB.loggedIn_iff (hs.answered (some b)), husers]

/-! ## Move by move

A replica manager reads one datagram, and the views of all replicas are as they should be again. -/

theorem Follows.client (h : Follows net read port s) {hand : Handshake} {a : SockAddr}
    {s' : Sites ι} (hs : s.step net read (.client hand a) = some s') :
    Follows net read port s' := by
  obtain ⟨c, ht, hc⟩ := h
  obtain ⟨⟨hlogin, ha⟩, hs⟩ := Option.ite_none_right_eq_some.mp hs
  obtain rfl := Option.some.inj hs
  obtain ⟨ht', hview⟩ := ht.serve none { s none with
    handshakes := (s none).handshakes ++ [(hand, a)] } [] rfl rfl (fun _ ↦ rfl) fun _ _ ↦ rfl
  refine ⟨c, ht', ?_⟩
  rw [send, List.foldl_nil, letters_nil, List.append_nil] at hview
  rw [hview]
  refine hc.update ((hc.sound none).call fun y hy ↦ ?_) (fun _ ↦ ⟨hc.heads.control,
    hc.heads.unanswered, hc.heads.alone⟩) (fun _ _ h ↦ h) fun hne ↦ absurd rfl hne
  simp only [List.mem_append, List.mem_singleton] at hy
  rcases hy with (hy | rfl) | hy
  · exact .inl (List.mem_append_left _ hy)
  · exact .inr ⟨ha, hlogin⟩
  · exact .inl (List.mem_append_right _ hy)

theorem Follows.accept (h : Follows net read port s) {s' : Sites ι}
    (hs : s.step net read (.accept w) = some s') : Follows net read port s' := by
  obtain ⟨c, ht, hc⟩ := h
  cases hf : (s w).forwarding with
  | some x => simp [step, hf] at hs
  | none =>
    cases hh : (s w).handshakes with
    | nil => simp [step, hf, hh] at hs
    | cons x rest =>
      simp only [step, hf, hh, Option.some.injEq] at hs
      obtain rfl := hs
      obtain ⟨ht', hview⟩ := ht.serve w { s w with handshakes := rest, forwarding := some x }
        [(net.address (.manager w), operation .clientLogin)] rfl rfl (fun _ ↦ calls_manager)
        fun v hv ↦ letters_manager.trans (if_neg hv)
      refine ⟨c, ht', ?_⟩
      rw [hview, letters_manager, if_pos rfl]
      have hcalling : (view net read s c w).calling =
          x :: (rest ++ calls net read (.manager w) w (c.pending w)) := by
        rw [view, hh, List.cons_append]
      have hforwarding : (view net read s c w).forwarding = none := hf
      refine hc.update ((hc.sound w).accept hforwarding hcalling) (fun hw ↦ ?_)
        (fun hw us hus ↦ ?_) fun _ ↦ ?_
      · subst hw
        refine ⟨hc.heads.control, fun d hd ↦ ?_, hc.heads.alone⟩
        rcases List.mem_append.mp hd with hd | hd
        · exact hc.heads.unanswered d hd
        · rw [List.mem_singleton.mp hd]
          exact Kind.noConfusion
      · subst hw
        simp only [View.taken, View.unread, hforwarding, view_server, view_fromServer,
          Option.toList_none, List.map_nil, List.append_nil] at hus
        simp [View.taken, View.unread, hus]
      · simp [View.taken, View.toCome, hh, hf]

theorem Follows.forward (h : Follows net read port s) {s' : Sites ι}
    (hs : s.step net read (.forward w) = some s') : Follows net read port s' := by
  obtain ⟨c, ht, hc⟩ := h
  obtain ⟨x, hx, hs⟩ := Option.bind_eq_some_iff.mp hs
  obtain ⟨t, hstep, hs⟩ := Option.bind_eq_some_iff.mp hs
  obtain rfl := Option.some.inj hs
  obtain ⟨ht', hview⟩ := ht.serve w { s w with forwarding := none, server := t }
    [(net.address (.manager w), handshake x.1)] rfl rfl (fun _ ↦ calls_manager)
    fun v hv ↦ letters_manager.trans (if_neg hv)
  refine ⟨c, ht', ?_⟩
  rw [hview, letters_manager, if_pos rfl]
  have hforwarding : (view net read s c w).forwarding = some x := hx
  have husers : t.users = (s w).server.users ++ [x.1.userid] := by
    cases hstep
    exact List.map_append
  refine hc.update ((hc.sound w).forward hforwarding hstep) (fun hw ↦ ?_) (fun hw us hus ↦ ?_)
    fun _ ↦ ?_
  · subst hw
    refine ⟨hc.heads.control, fun d hd ↦ ?_, hc.heads.alone⟩
    rcases List.mem_append.mp hd with hd | hd
    · exact hc.heads.unanswered d hd
    · rw [List.mem_singleton.mp hd]
      exact Kind.noConfusion
  · subst hw
    simp only [View.taken, View.unread, hforwarding, Option.toList_some, List.map_cons,
      List.map_nil] at hus
    simpa [View.taken, View.unread, husers] using hus
  · simp [View.taken, View.toCome, hx, husers]

/-- What a thread answers is for its client. -/
theorem answers_spec {t t' : Threaded} {i : Nat} {unset : Bool}
    (ht : t.step (.advance i unset) = some t') : ∀ p ∈ answers t t',
      p.2.1 = Kind.syn ∧ ∃ y ∈ t.threads, y.clientAddr = p.1 := by
  obtain ⟨ds, hds, hclient⟩ := Threaded.exists_sent ht
  intro p hp
  rw [answers, hds, List.drop_left] at hp
  obtain ⟨y, hy, rfl⟩ := List.mem_map.mp hp
  exact ⟨rfl, hclient y hy⟩

theorem Follows.advance (h : Follows net read port s) {i : Nat} {unset : Bool} {s' : Sites ι}
    (hm : (s w).server.InTurn (.advance i unset))
    (hs : s.step net read (.advance w i unset) = some s') : Follows net read port s' := by
  obtain ⟨c, ht, hc⟩ := h
  obtain ⟨t, hstep, hs⟩ := Option.bind_eq_some_iff.mp hs
  obtain rfl := Option.some.inj hs
  have hplace : ∀ p ∈ answers (s w).server t,
      net.place p.1 = w.map fun b ↦ Place.manager (some b) := by
    intro p hp
    obtain ⟨-, y, hy, hclient⟩ := answers_spec hstep p hp
    exact hclient ▸ (hc.sound w).threads y hy
  have hletters : ∀ v, v ≠ w ∨ w = none → letters net v (answers (s w).server t) = [] := by
    intro v hv
    rw [letters, List.filter_eq_nil_iff.mpr, List.map_nil]
    intro p hp hthere
    rw [hplace p hp, decide_eq_true_eq] at hthere
    cases w with
    | none => cases hthere
    | some b =>
      have hw := Place.manager.inj (Option.some.inj hthere)
      exact hv.elim (fun hne ↦ hne hw.symm) (Option.some_ne_none b)
  have hcalls : ∀ v, calls net read (.server w) v (answers (s w).server t) = [] := by
    intro v
    rw [calls, List.filter_eq_nil_iff.mpr, List.filterMap_nil]
    intro p hp hthere
    rw [hplace p hp, decide_eq_true_eq] at hthere
    cases w <;> cases hthere
  have hsyn : ∀ d ∈ letters net w (answers (s w).server t), d.1 = Kind.syn := by
    intro d hd
    obtain ⟨p, hp, rfl⟩ := List.mem_map.mp hd
    exact (answers_spec hstep p (List.mem_of_mem_filter hp)).1
  obtain ⟨ht', hview⟩ := ht.serve w { s w with server := t } (answers (s w).server t) rfl rfl hcalls
    fun v hv ↦ hletters v (.inl hv)
  have husers : t.users = (s w).server.users := Threaded.users_step hstep
  refine ⟨c, ht', ?_⟩
  rw [hview]
  refine hc.update ((hc.sound w).advance hm hstep hsyn) (fun hw ↦ ?_) (fun hw us hus ↦ ?_)
    fun _ ↦ ?_
  · subst hw
    rw [hletters none (.inr rfl), List.append_nil]
    exact ⟨hc.heads.control, hc.heads.unanswered, hc.heads.alone⟩
  · subst hw
    rw [hletters none (.inr rfl), List.append_nil]
    simpa [View.taken, View.unread, husers] using hus
  · simp [View.taken, View.toCome, husers]

/-- A replica manager reads a datagram and makes something of it. -/
theorem step_hears (hread : Faithful read) {sender : Place ι} {d : Datagram groupWire}
    {ds : List (Datagram groupWire)} (hq : (s w).inbox sender = d :: ds) {k k' : Control}
    {m : k.kind.Msg} {out : List (Parcel groupWire)}
    (hat : (s w).manager = ⟨net.host w, k.prog (net.host w)⟩) (hd : d = ⟨k.kind, m⟩)
    (hears : Hears (net.host w) k m out k') {s' : Sites ι}
    (hs : s.step net read (.manage w sender) = some s') : ∃ e,
      s' = Function.update s w
        { s w with manager := e, inbox := Function.update (s w).inbox sender ds } ∧
      Endpoint.Says body e out ⟨net.host w, k'.prog (net.host w)⟩ := by
  obtain ⟨e, he, hsays⟩ := hears.step hread (net.address sender)
    (ds.map fun d ↦ (net.address sender, d))
  obtain ⟨r, hr, hs⟩ := Option.bind_eq_some_iff.mp hs
  rw [hat, hq, List.map_cons, hd, he] at hr
  obtain rfl := Option.some.inj hr
  obtain rfl := Option.some.inj hs
  refine ⟨e, ?_, hsays⟩
  simp only [Option.getD_some, List.map_map, Function.comp_def, List.map_id', send, List.foldl_nil]

section Reading

variable {d : Datagram groupWire} {ds : List (Datagram groupWire)} {s' : Sites ι} {k : Control}

/-- The primary's replica manager reads. -/
theorem follows_primary (hread : Faithful read) (ht : Tracked net read s c)
    (hc : Consistent net port (view net read s c)) (hnone : c.pending none = [])
    (hk : c.control none = k)
    (hat : (s none).manager = ⟨net.host none, k.prog (net.host none)⟩) {sender : Place ι}
    (hq : (s none).inbox sender = d :: ds) (hkind : d.1 = k.kind)
    (hs : s.step net read (.manage none sender) = some s') : Follows net read port s' := by
  -- it hears from its server only
  obtain rfl : sender = .server none := by
    by_contra hne
    by_cases hp : sender = .manager none
    · have halone := hc.heads.alone
      rw [view, ← hp, hq] at halone
      cases halone
    · rw [ht.quiet none sender hne hp] at hq
      cases hq
  have hsound := hc.sound none
  rcases hc.heads.control with hcontrol | hcontrol
  · obtain rfl : k = .listening := hk.symm.trans hcontrol
    obtain ⟨rfl, hunread, hX⟩ := hsound.hearOperation hcontrol hq hkind
    obtain ⟨e, rfl, he⟩ := step_hears hread hq hat rfl hears_clientLogin hs
    obtain ⟨ht', hview⟩ := ht.hearServer hnone ds he
    exact ⟨_, ht', hview ▸ hc.update hX (fun _ ↦ hc.heads.tail hq (.inr rfl))
      (fun _ us hus ↦ hunread ▸ hus) fun hne ↦ absurd rfl hne⟩
  · obtain rfl : k = .handed := hk.symm.trans hcontrol
    obtain ⟨hand, rfl, hlogin, hunread, hX⟩ := hsound.hearHandshake hcontrol hq hkind
      (c := .listening) rfl rfl
    obtain ⟨e, rfl, he⟩ := step_hears hread hq hat rfl
      (hears_handshake_primary (net.primary none) hlogin) hs
    obtain ⟨c', ht', hprimary, hbackup⟩ := ht.propagate hnone he
    refine ⟨c', ht', ?_, ?_, ?_⟩
    · intro v
      cases v with
      | none => exact hprimary ▸ hX
      | some b => exact hbackup b ▸ (hc.sound (some b)).propagate hlogin
    · exact hprimary ▸ hc.heads.tail hq (.inl rfl)
    · intro b
      have hrelays := hc.relays b
      rw [hprimary, hbackup b]
      rw [View.Relays, hunread] at hrelays
      simpa [View.Relays, View.taken, View.toCome] using hrelays

/-- The replica manager of a backup reads what its server has sent, and the replicas are as they
should be. -/
theorem follows_backup_fromServer (hread : Faithful read) (ht : Tracked net read s c)
    (hc : Consistent net port (view net read s c)) {b : ι} (hnone : c.pending (some b) = [])
    (hk : c.control (some b) = k)
    (hat : (s (some b)).manager = ⟨net.host (some b), k.prog (net.host (some b))⟩)
    (hq : (s (some b)).inbox (.server (some b)) = d :: ds) (hkind : d.1 = k.kind)
    (hs : s.step net read (.manage (some b) (.server (some b))) = some s') :
    Follows net read port s' := by
  have hsound := hc.sound (some b)
  have hcontrol : (view net read s c (some b)).control = k := hk
  have hb : (some b : Option ι) ≠ none := Option.some_ne_none b
  cases k with
  | listening =>
    obtain ⟨rfl, hunread, hX⟩ := hsound.hearOperation hcontrol hq hkind
    obtain ⟨e, rfl, he⟩ := step_hears hread hq hat rfl hears_clientLogin hs
    obtain ⟨ht', hview⟩ := ht.hearServer hnone ds he
    exact ⟨_, ht', hview ▸ hc.update hX (fun h ↦ absurd h hb) (fun h ↦ absurd h hb) fun _ ↦ rfl⟩
  | handed =>
    obtain ⟨hand, rfl, -, -, hX⟩ := hsound.hearHandshake hcontrol hq hkind
      (c := .dummySyn) rfl rfl
    obtain ⟨e, rfl, he⟩ := step_hears hread hq hat rfl
      (hears_handshake_backup (net.primary (some b))) hs
    obtain ⟨ht', hview⟩ := ht.hearServer hnone ds he
    exact ⟨_, ht', hview ▸ hc.update hX (fun h ↦ absurd h hb) (fun h ↦ absurd h hb) fun _ ↦ rfl⟩
  | propagated => exact absurd hkind (hsound.not_handshake hcontrol hq)
  | dummySyn =>
    obtain ⟨-, hX⟩ := hsound.hearSyn hcontrol hq hkind
    obtain ⟨κ, syn⟩ := d
    obtain rfl : κ = Kind.syn := hkind
    obtain ⟨e, rfl, he⟩ := step_hears hread hq hat rfl hears_syn hs
    obtain ⟨ht', hview⟩ := ht.hearServer hnone ds he
    exact ⟨_, ht', hview ▸ hc.update hX (fun h ↦ absurd h hb) (fun h ↦ absurd h hb) fun _ ↦ rfl⟩

/-- The replica manager of a backup reads what the primary has sent, and the replicas are as they
should be. -/
theorem follows_backup_fromPrimary (hread : Faithful read) (ht : Tracked net read s c)
    (hc : Consistent net port (view net read s c)) {b : ι} (hnone : c.pending (some b) = [])
    (hk : c.control (some b) = k)
    (hat : (s (some b)).manager = ⟨net.host (some b), k.prog (net.host (some b))⟩)
    (hq : (s (some b)).inbox (.manager none) = d :: ds) (hkind : d.1 = k.kind)
    (hs : s.step net read (.manage (some b) (.manager none)) = some s') :
    Follows net read port s' := by
  have hsound := hc.sound (some b)
  have hcontrol : (view net read s c (some b)).control = k := hk
  have hb : (some b : Option ι) ≠ none := Option.some_ne_none b
  have hfrom : (view net read s c (some b)).fromPrimary =
      d :: (ds ++ letters net (some b) (c.pending none)) := by
    rw [view, hq, List.cons_append]
  cases k with
  | listening =>
    obtain ⟨rfl, hhands, hX⟩ := hsound.hearPropagate hcontrol hfrom
    obtain ⟨e, rfl, he⟩ := step_hears hread hq hat rfl
      (hears_propagateLogin (net.primary (some b))) hs
    obtain ⟨ht', hview⟩ := ht.hearPrimary hnone hb ds he (fun _ _ ↦ calls_nil)
      fun _ ↦ letters_nil
    rw [calls_nil, List.append_nil] at hview
    refine ⟨_, ht', hview ▸ hc.update hX (fun h ↦ absurd h hb) (fun h ↦ absurd h hb) fun _ ↦ ?_⟩
    rw [View.toCome, View.toCome, hhands]
    rfl
  | handed =>
    obtain rfl := hsound.eq_operation (by rw [hcontrol]; rfl) hfrom
    cases hkind
  | propagated =>
    obtain ⟨hand, rfl, hhands, hX⟩ := hsound.hearPropagated hcontrol hfrom hkind
      (net.place_address (.manager (some b)))
    obtain ⟨e, rfl, he⟩ := step_hears hread hq hat rfl hears_handshake_propagated hs
    rw [net.serverAddress] at he
    obtain ⟨ht', hview⟩ := ht.hearPrimary hnone hb ds he
      (fun v hv ↦ (calls_server hread).trans (if_neg hv)) fun _ ↦ letters_server
    rw [calls_server hread, if_pos rfl] at hview
    refine ⟨_, ht', hview ▸ hc.update hX (fun h ↦ absurd h hb) (fun h ↦ absurd h hb) fun _ ↦ ?_⟩
    simp [View.taken, View.toCome, hhands]
  | dummySyn =>
    obtain rfl := hsound.eq_operation (by rw [hcontrol]; rfl) hfrom
    cases hkind

/-- The replica manager of a backup reads a datagram, which can only be of its server or of the
primary. -/
theorem follows_backup (hread : Faithful read) (ht : Tracked net read s c)
    (hc : Consistent net port (view net read s c)) {b : ι} (hnone : c.pending (some b) = [])
    (hk : c.control (some b) = k)
    (hat : (s (some b)).manager = ⟨net.host (some b), k.prog (net.host (some b))⟩)
    {sender : Place ι} (hq : (s (some b)).inbox sender = d :: ds) (hkind : d.1 = k.kind)
    (hs : s.step net read (.manage (some b) sender) = some s') : Follows net read port s' := by
  by_cases hserver : sender = .server (some b)
  · subst hserver
    exact follows_backup_fromServer hread ht hc hnone hk hat hq hkind hs
  · obtain rfl : sender = .manager none := by
      by_contra hne
      rw [ht.quiet (some b) sender hserver hne] at hq
      cases hq
    exact follows_backup_fromPrimary hread ht hc hnone hk hat hq hkind hs

end Reading

theorem Follows.manage (hread : Faithful read) (h : Follows net read port s) {sender : Place ι}
    (hm : Proper s (.manage w sender)) {s' : Sites ι}
    (hs : s.step net read (.manage w sender) = some s') : Follows net read port s' := by
  obtain ⟨c, ht, hc⟩ := h
  rcases (ht.course w).first with ⟨hnone, hat⟩ | ⟨e, o, out, hout, hstep, hrest⟩
  · -- it waits
    obtain ⟨k, hk⟩ := Control.prog_eq_wait (net.host w) (c.control w)
    cases hq : (s w).inbox sender with
    | nil =>
      obtain ⟨r, hr, -⟩ := Option.bind_eq_some_iff.mp hs
      rw [← hat, hk, hq] at hr
      cases hr
    | cons d ds =>
      have hkind : d.1 = (c.control w).kind := hm _ k (by rw [← hat, hk]) d (by rw [hq]; rfl)
      cases w with
      | none => exact follows_primary hread ht hc hnone rfl hat.symm hq hkind hs
      | some b => exact follows_backup hread ht hc hnone rfl hat.symm hq hkind hs
  · -- it does something else
    obtain ⟨r, hr, hs⟩ := Option.bind_eq_some_iff.mp hs
    rw [hstep] at hr
    obtain rfl := Option.some.inj hr
    obtain rfl := Option.some.inj hs
    obtain ⟨ht', hview⟩ := ht.talk hout hrest
    simp only [Option.getD_some, List.map_map, Function.comp_def, List.map_id',
      Function.update_eq_self]
    exact ⟨_, ht', hview ▸ hc⟩

/-- A proper move leaves the replicas as they should be. -/
theorem Follows.step (hread : Faithful read) (h : Follows net read port s) {m : Happening ι}
    (hm : Proper s m) {s' : Sites ι} (hs : s.step net read m = some s') :
    Follows net read port s' := by
  cases m with
  | client hand a => exact h.client hs
  | accept w => exact h.accept hs
  | forward w => exact h.forward hs
  | advance w i unset => exact h.advance hm hs
  | manage w sender => exact h.manage hread hm hs

theorem follows_start (net : Network ι) (read : Reading groupWire) (port : UInt32) :
    Follows net read port (start net port) := by
  refine ⟨⟨fun _ ↦ .listening, fun _ ↦ []⟩, ⟨fun w ↦ .refl _, ?_, ?_, ?_⟩, ?_, ?_, ?_⟩
  · exact fun _ _ _ ↦ rfl
  · exact fun _ _ ↦ rfl
  · exact fun _ _ _ _ ↦ rfl
  · intro w
    have hnone : ∀ x : Handshake × SockAddr, ¬ (x ∈ (view net read (start net port)
        ⟨fun _ ↦ .listening, fun _ ↦ []⟩ w).calling ∨
          x ∈ (none : Option (Handshake × SockAddr))) := by
      simp [start]
    refine ⟨⟨0, Threaded.inOrder_start port⟩, fun x hx ↦ absurd hx (hnone x), ?_, rfl, rfl, ?_⟩
    · simp [start, Threaded.start]
    · simp [View.unread, start, view]
  · exact ⟨.inl rfl, by simp [start], by simp [view, start]⟩
  · intro b
    simp [View.Relays, View.taken, View.toCome, View.unread, start, view, Threaded.users,
      Threaded.start]

/-- **As long as the threads take their steps in turn and no replica manager reads a datagram for
another one, the login tables agree whenever everything has been handled.** -/
theorem login_tables_agree {net : Network ι} {read : Reading groupWire} (hread : Faithful read)
    (port : UInt32) (moves : List (Happening ι))
    (h : Runs.Along (step net read) Proper moves (start net port)) :
    Runs.Always (step net read) Agree moves (start net port) :=
  Runs.always_of_along (I := Follows net read port) (fun _ ↦ Follows.agree)
    (fun _ _ _ h hm hs ↦ h.step hread hm hs) moves (follows_start net read port) h

/-! ### One backup -/

section Example

/-- The addresses of a primary and one backup. -/
def addressOf : Place Unit → SockAddr
  | .server none => ⟨1, 5000⟩
  | .manager none => ⟨1, 5001⟩
  | .server (some _) => ⟨2, 5000⟩
  | .manager (some _) => ⟨2, 5001⟩

/-- The places that have these addresses. -/
def placeOf (a : SockAddr) : Option (Place Unit) :=
  if a = ⟨1, 5000⟩ then some (.server none)
  else if a = ⟨1, 5001⟩ then some (.manager none)
  else if a = ⟨2, 5000⟩ then some (.server (some ()))
  else if a = ⟨2, 5001⟩ then some (.manager (some ()))
  else none

/-- The two replica managers. -/
def hostOf : Option Unit → Host
  | none => { makePrimary ⟨1, 5001⟩ ⟨1, 5000⟩ (blank ['s']) with
      group := OrderedMap.empty.assign 1 ⟨2, 5001⟩ }
  | some _ => newBackup ⟨2, 5001⟩ ⟨2, 5000⟩ (blank ['s'])

/-- A primary and one backup. -/
def oneBackup : Network Unit where
  address := addressOf
  place := placeOf
  place_address p := by rcases p with (_ | _) | (_ | _) <;> rfl
  host := hostOf
  ownAddress w := by cases w <;> rfl
  serverAddress w := by cases w <;> rfl
  primary w := by cases w <;> rfl
  joined p := by rcases p with (_ | _) | (_ | _) <;> rfl

/-- What a replica manager waits for. -/
def awaited : Prog Unit → Option Kind
  | .wait κ _ => some κ
  | _ => none

theorem exists_of_awaited {p : Prog Unit} {κ : Kind} (h : awaited p = some κ) :
    ∃ k, p = .wait κ k := by
  cases p with
  | wait κ' k =>
    cases h
    exact ⟨k, rfl⟩
  | _ => cases h

/-- Whether a thread has answered. -/
def done (t : LoginThread) : Bool :=
  match t.phase with
  | .answered _ _ => true
  | _ => false

/-- Whether nothing is left to do at a replica. -/
def idle (x : Site Unit) : Bool :=
  x.handshakes.isEmpty && x.forwarding.isNone && (awaited x.manager.prog).isSome &&
    [Place.server none, .manager none, .server (some ()), .manager (some ())].all (fun p ↦
      (x.inbox p).isEmpty) && x.server.threads.all done

theorem settled_of_idle {s : Sites Unit} (h : ∀ w, idle (s w) = true) : s.Settled := by
  simp only [idle, Bool.and_eq_true, List.isEmpty_iff, Option.isNone_iff_eq_none, List.all_eq_true]
    at h
  constructor
  · exact fun w ↦ (h w).1.1.1.1
  · exact fun w ↦ (h w).1.1.1.2
  · intro w p
    exact (h w).1.2 p (by rcases p with (_ | _) | (_ | _) <;> simp)
  · intro w
    obtain ⟨κ, hκ⟩ := Option.isSome_iff_exists.mp (h w).1.1.2
    exact ⟨κ, exists_of_awaited hκ⟩
  · intro w i t ht
    have hdone := (h w).2 t (List.mem_of_getElem? ht)
    rw [done] at hdone
    cases hph : t.phase with
    | answered port device => exact ⟨port, device, rfl⟩
    | _ => rw [hph] at hdone; cases hdone

/-- The port on which a user is logged in on device 1. -/
def portOn (x : Site Unit) (u : Name) : Option UInt32 :=
  ((x.server.server.logins.entry u).at? 1).bind fun c ↦ if c.initialized then some c.port else none

theorem portOn_eq_some {x : Site Unit} {u : Name} {port : UInt32} :
    portOn x u = some port ↔ ∃ c, x.server.server.LoggedIn u 1 c ∧ c.port = port := by
  simp only [portOn, Option.bind_eq_some_iff, Option.ite_none_right_eq_some, Option.some.injEq,
    Server.LoggedIn, and_assoc]

/-- The login of a user. -/
def loginOf (u : Name) : Handshake := ⟨.login, u, 0, {}⟩

/-- The moves of the threads and replica managers that follow a login at a backup. -/
def replayed (i : Nat) : List (Happening Unit) :=
  List.replicate 5 (.manage (some ()) (.manager none)) ++ [.accept (some ()), .forward (some ())] ++
    List.replicate 5 (.advance (some ()) i false) ++
    List.replicate 5 (.manage (some ()) (.server (some ())))

/-- Two users log in, and the threads of the primary reserve their ports in the other order. -/
def portsSwapped : List (Happening Unit) :=
  [.client (loginOf ['a']) {}, .accept none, .forward none, .client (loginOf ['b']) {},
    .accept none, .forward none, .advance none 1 false, .advance none 0 false] ++
  List.replicate 4 (.advance none 0 false) ++ List.replicate 4 (.advance none 1 false) ++
  List.replicate 16 (.manage none (.server none)) ++ replayed 0 ++ replayed 1

/-- At the backup the two users have the ports of each other. -/
theorem tables_differ :
    ¬ Runs.Always (step oneBackup zeroReading) Agree portsSwapped (start oneBackup 65530) := by
  intro h
  have hend : (Runs.after (step oneBackup zeroReading) portsSwapped (start oneBackup 65530)).map
      (fun s ↦ (idle (s none), idle (s (some ())), portOn (s none) ['a'],
        portOn (s (some ())) ['a'])) = some (true, true, some 65533, some 65532) := by
    decide +kernel
  obtain ⟨s, hs, hreport⟩ := Option.map_eq_some_iff.mp hend
  obtain ⟨hprimary, hbackup, hport, hport'⟩ :
      idle (s none) = true ∧ idle (s (some ())) = true ∧ portOn (s none) ['a'] = some 65533 ∧
        portOn (s (some ())) ['a'] = some 65532 := by simpa using hreport
  have hagree := h.after hs (settled_of_idle fun w ↦ by cases w; exacts [hprimary, hbackup])
    () ['a']
    1 65533
  rw [← portOn_eq_some, ← portOn_eq_some, hport, hport'] at hagree
  exact absurd (hagree.mp rfl) (by decide)

/-- A move that is proper at first sight. -/
def Plain (s : Sites Unit) : Happening Unit → Prop
  | .client _ _ | .accept _ | .forward _ => True
  | .advance w i _ => i = 0 ∧ (s w).server.threads.length ≤ 1
  | .manage w sender => ∀ κ ∈ awaited (s w).manager.prog, ∀ d ∈ ((s w).inbox sender).head?, d.1 = κ

instance decidablePlain (s : Sites Unit) : (m : Happening Unit) → Decidable (Plain s m)
  | .client _ _ | .accept _ | .forward _ => .isTrue trivial
  | .advance w i _ => inferInstanceAs (Decidable (i = 0 ∧ (s w).server.threads.length ≤ 1))
  | .manage w sender => inferInstanceAs
    (Decidable (∀ κ ∈ awaited (s w).manager.prog, ∀ d ∈ ((s w).inbox sender).head?, d.1 = κ))

theorem Plain.proper {s : Sites Unit} {m : Happening Unit} (h : Plain s m) : Proper s m := by
  cases m with
  | client hand a => trivial
  | accept w => trivial
  | forward w => trivial
  | advance w i unset =>
    obtain ⟨rfl, hlength⟩ := h
    have hzero : ∀ {j t}, (s w).server.HasThread j t → j = 0 := fun hj ↦ by
      have := (List.getElem?_eq_some_iff.mp hj).1
      omega
    refine ⟨fun t q hi ht j t' q' k c hj hu ht' ↦ ?_, fun t hi ↦
      ⟨fun _ j hj ↦ absurd hj (Nat.not_lt_zero j), fun _ _ j hj ↦ absurd hj (Nat.not_lt_zero j)⟩⟩
    obtain rfl := hzero hj
    rw [Threaded.HasThread.unique hi hj, ht] at ht'
    cases ht'
  | manage w sender =>
    intro κ k hk
    exact h κ (by rw [hk]; rfl)

/-- The moves of a run in which one user logs in. -/
def oneLogin : List (Happening Unit) :=
  [.client (loginOf ['a']) {}, .accept none, .forward none] ++
  List.replicate 5 (.advance none 0 false) ++ List.replicate 8 (.manage none (.server none)) ++
  replayed 0

/-- The login of one user is replicated. -/
theorem one_login_replicated :
    Runs.Along (step oneBackup zeroReading) Proper oneLogin (start oneBackup 65530) ∧
      Runs.Always (step oneBackup zeroReading) Agree oneLogin (start oneBackup 65530) := by
  have halong : Runs.Along (step oneBackup zeroReading) Plain oneLogin (start oneBackup 65530) := by
    decide +kernel
  have hproper := halong.mono fun _ _ ↦ Plain.proper
  exact ⟨hproper, login_tables_agree faithful_zeroReading 65530 oneLogin hproper⟩

end Example

end Sites
end Bropdox
