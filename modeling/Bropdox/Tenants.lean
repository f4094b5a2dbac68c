import Bropdox.Confinement
import Bropdox.Sharing

/-!
# Many users on one server

The sync directories of all users are on one machine, and the sessions of different users go on at
the same time: the request handler of one of them does something, then that of another, as they
happen to be scheduled.  A user here is a whole household with any number of devices, which gives
one proper command after the other; what the users do is not coordinated in any way.

## What is here

* `Diary` is a run of a household with the deeds that were completed in it, which is what two runs
  are compared by.
* `Tenant` is a user but for the files on the server, and `Tenant.Move` one operation or datagram of
  a session of this user.  `Tenant.Amid` says that the user is where the household would be, or in a
  session that it has begun.
* `Sees`: on the shared machine there is for the user what would be there on a machine that has
  nobody else's files.  `Sees.move` carries it through a move of the user, and `Sees.other` through
  a move of anybody else; both rest on the confinement of `Confinement.lean`, since the names of a
  proper command do not lead out of the user's directory.
* `Town` is all users with the machine of the server, and `Roll` their names.  The general argument
  about owners of parts of a state is `Sharing.lean`, and `apart` instantiates it.
* `users_undisturbed`: each user's part of a run is a run of the household of that user alone, on a
  server that has nobody else's files and whose clock shows the times at which it was this user's
  turn.
* `deeds_finish`: a session that has begun, and a proper deed that has not, can be carried to its
  end whatever the others are in the middle of.
* `oneInside` is a town of two users of whom one is in the middle of an upload.

So all that has been proved of households holds for each of many users.
-/

set_option autoImplicit false

namespace Bropdox

open FileSystem Session Program SocketHandler Peers

open FileSystem.Machine (Beside SameBeside)

open KeyedStore (Act)

open Sharing (part)

open Relation (ReflTransGen)

/-! ## What a household does

What of a household's session the server's machine can see: the names that are used in it are tame,
and the handler keeps to the directory of the user. -/

namespace Household

variable {ι : Type}

/-- A deed that is done. -/
structure Done (ι : Type) where
  /-- The device. -/
  device : ι
  /-- The deed. -/
  deed : Deed
  /-- What the client has returned. -/
  returned : Bool

/-- Proper deeds are about decent names. -/
theorem Proper.tame {w : Household ι} {i : ι} {deed : Deed} (hp : w.Proper i deed) :
    deed.Named tameRule := by
  cases deed with
  | command cmd =>
    cases cmd with
    | upload file => exact .inr hp.1
    | download file path => exact .inr hp
    | delete file => exact .inr hp.1
    | ls => trivial
  | sync events =>
    obtain ⟨p, -, hwatched⟩ := hp
    intro event hevent
    have hsought := (hwatched event hevent).soughtName
    exact .inr (hsought.symm ▸ (hwatched event hevent).plain)

/-- Whether a deed is proper depends on the server only through its listing. -/
theorem Proper.congr {w w' : Household ι} {i : ι} {deed : Deed} (hp : w.Proper i deed)
    (hclient : w'.client i = w.client i)
    (hlist : w'.server.getFileInfoList = w.server.getFileInfoList) : w'.Proper i deed := by
  cases deed with
  | command cmd =>
    cases cmd with
    | upload file => simpa [Proper, found, hclient] using hp
    | download file path => exact hp
    | delete file => simpa [Proper, Command.Harmless, desk, hclient] using hp
    | ls => simpa [Proper, Command.Harmless, desk, hlist] using hp
  | sync events => simpa [Proper, hclient] using hp

/-- **In a session the handler stays where it belongs.** -/
theorem Sound.kept_tame {w : Household ι} {q : Path} (hw : w.Sound q) (hh : Houses w.server q)
    {i : ι} {deed : Deed} (hp : w.Proper i deed) {y : PeerPair Bool Bool}
    (hy : ReflTransGen (Pair.Step peers) (w.start i deed) y) :
    tameRule.Kept (fun _ ↦ True) (Houses · q) y := by
  rw [hw.start_eq] at hy
  exact NameRule.kept_in_session client_tame (handler_tame q)
    (NameRule.kept_start trivial hh hp.tame) hy

/-- A household is as sound with another server that has the same files. -/
theorem Sound.on {w : Household ι} {q : Path} (hw : w.Sound q) {h : FileHost}
    (hflat : FlatDir h.machine h.syncDir q) (hview : h.view q = w.server.view q)
    (hreported : h.reported = w.server.reported) :
    Household.Sound { w with server := h } q where
  tidy i := ⟨(hw.tidy i).socket, (hw.tidy i).inbox, (hw.tidy i).idle⟩
  flat := hflat
  counted f x hx := (hw.counted f x (hview ▸ hx)).congr hreported
  reported i := (hw.reported i).trans hreported.symm
  counts := hreported.trans hw.counts

variable [DecidableEq ι]

/-- A run, with the deeds that are done and what they have changed on the server. -/
inductive Diary (q : Path) :
    Household ι → List (Done ι) → List (Act Name Contents) → Household ι → Prop
  | nil (w : Household ι) : Diary q w [] [] w
  | edit {w w' : Household ι} {ds : List (Done ι)} {acts : List (Act Name Contents)}
      (hd : Diary q w ds acts w') (i : ι) (m : Machine) : Diary q w ds acts (w'.edit i m)
  | deed {w w' : Household ι} {ds : List (Done ι)} {acts : List (Act Name Contents)} {i : ι}
      {deed : Deed} {y : PeerPair Bool Bool} {a b : Bool} (hd : Diary q w ds acts w')
      (hproper : w'.Proper i deed) (hreach : ReflTransGen (Pair.Step peers) (w'.start i deed) y)
      (hret : y.Returned a b) :
      Diary q w (ds ++ [⟨i, deed, a⟩]) (acts ++ w'.acts q i deed a) (w'.leave i y)

variable {w w' : Household ι} {q : Path} {ds : List (Done ι)} {acts : List (Act Name Contents)}

theorem Diary.run (hd : Diary q w ds acts w') : Run q w acts w' := by
  induction hd with
  | nil => exact .nil w
  | edit _ i m ih => simpa using ih.snoc (.edit _ i m)
  | deed _ hproper hreach hret ih => exact ih.snoc (.deed hproper hreach hret)

/-- The directory stays in its place. -/
theorem Diary.houses (hd : Diary q w ds acts w') (hw : w.Sound q) (hh : Houses w.server q) :
    Houses w'.server q := by
  induction hd with
  | nil => exact hh
  | edit _ i m ih => exact ih
  | deed hd hproper hreach _ ih =>
    exact ((hw.run hd.run).1.kept_tame ih hproper hreach).server

/-- A device that is not in a session can be edited before it as well. -/
theorem start_edit {i j : ι} (hij : i ≠ j) (w : Household ι) (m : Machine) (deed : Deed) :
    (w.edit j m).start i deed = w.start i deed := by
  simp [start, Household.edit, hij]

end Household

/-! ## Users

A user, taken apart from the machine of the server, and what one move of it does there. -/

/-- A session in progress, but for the machine of the server. -/
structure Visit (ι : Type) where
  /-- The device. -/
  device : ι
  /-- The deed of the session. -/
  deed : Deed
  /-- The client. -/
  left : Endpoint sessionWire Client.sig Bool
  /-- What is left to do for the request handler. -/
  right : RequestHandler.Prog Bool
  /-- What the client has not read yet. -/
  toLeft : Inbox sessionWire
  /-- What the request handler has not read yet. -/
  toRight : Inbox sessionWire
  /-- What the client has sent to third parties. -/
  mailLeft : List (Parcel sessionWire) := []
  /-- What the request handler has sent to third parties. -/
  mailRight : List (Parcel sessionWire) := []

namespace Visit

variable {ι : Type}

/-- The session on this machine of the server. -/
def on (x : Visit ι) (h : FileHost) : PeerPair Bool Bool :=
  ⟨x.left, ⟨h, x.right⟩, x.toLeft, x.toRight, x.mailLeft, x.mailRight⟩

/-- The session is somewhere else now. -/
def next (x : Visit ι) (y : PeerPair Bool Bool) : Visit ι :=
  ⟨x.device, x.deed, y.left, y.right.prog, y.toLeft, y.toRight, y.mailLeft, y.mailRight⟩

/-- A move of the client has nothing to do with the server's files, and one of the handler is one
of its own. -/
theorem step_cases {x : Visit ι} {h : FileHost} {y : PeerPair Bool Bool}
    (hs : Pair.Step peers (x.on h) y) :
    (y.right.host = h ∧ ∀ h', Pair.Step peers (x.on h') ((x.next y).on h')) ∨
      ∃ i out, Endpoint.step typed RequestHandler.body ⟨h, x.right⟩ x.toRight =
          some (⟨y.right.host, (x.next y).right⟩, i, out) ∧
        ∀ h' s, Endpoint.step typed RequestHandler.body ⟨h', x.right⟩ x.toRight =
          some (⟨s, (x.next y).right⟩, i, out) → Pair.Step peers (x.on h') ((x.next y).on s) := by
  cases hs with
  | left hl => exact .inl ⟨rfl, fun h' ↦ .left (x := x.on h') hl⟩
  | right hr => exact .inr ⟨_, _, hr, fun h' s hr' ↦ .right (x := x.on h') hr'⟩

end Visit

/-- A user, but for the files on the server. -/
structure Tenant (ι : Type) where
  /-- The clients. -/
  client : ι → Client.Host
  /-- The sockets `sock_handler_req` of the devices. -/
  socket : ι → Inbox sessionWire
  /-- The sockets of the request handlers. -/
  inbox : ι → Inbox sessionWire
  /-- The session in progress. -/
  visit : Option (Visit ι) := none

namespace Tenant

variable {ι : Type}

/-- The household of the user. -/
def household (a : Tenant ι) (h : FileHost) : Household ι := ⟨a.client, a.socket, a.inbox, h⟩

/-- The user begins a session. -/
def enter (a : Tenant ι) (i : ι) (deed : Deed) : Tenant ι :=
  { a with
    visit := some
      { device := i
        deed := deed
        left := ⟨a.client i, deed.program⟩
        right := RequestHandler.handleRequest deed.req
        toLeft := some ((a.socket i).getD [])
        toRight := a.inbox i } }

variable [DecidableEq ι]

/-- The files of a device have changed. -/
def edit (a : Tenant ι) (i : ι) (m : Machine) : Tenant ι :=
  { a with
    client := Function.update a.client i
      { a.client i with files := { (a.client i).files with machine := m } } }

/-- The user after the session is over. -/
def leave (a : Tenant ι) (x : Visit ι) : Tenant ι where
  client := Function.update a.client x.device x.left.host
  socket := Function.update a.socket x.device x.toLeft
  inbox := Function.update a.inbox x.device x.toRight

/-- What the user `u` does, with the deed that it completes.  The files of a device may change
whenever the device is not in a session. -/
inductive Move (u : Name) : List (Household.Done ι) → Tenant ι × Machine → Tenant ι × Machine → Prop
  | edit {a : Tenant ι} {m : Machine} {i : ι} (hi : ∀ x, a.visit = some x → x.device ≠ i)
      (m' : Machine) : Move u [] (a, m) (a.edit i m', m)
  | enter {a : Tenant ι} {m : Machine} {i : ι} {deed : Deed} (hv : a.visit = none)
      (hp : (a.household (userHost m u)).Proper i deed) : Move u [] (a, m) (a.enter i deed, m)
  | go {a : Tenant ι} {m : Machine} {x : Visit ι} {y : PeerPair Bool Bool} (hv : a.visit = some x)
      (hs : Pair.Step peers (x.on (userHost m u)) y) :
      Move u [] (a, m) ({ a with visit := some (x.next y) }, y.right.host.machine)
  | leave {a : Tenant ι} {m : Machine} {x : Visit ι} {b c : Bool} (hv : a.visit = some x)
      (hret : (x.on (userHost m u)).Returned b c) :
      Move u [⟨x.device, x.deed, b⟩] (a, m) (a.leave x, m)

/-- The user is where the household would be, or in a session that it has begun; this is so with
some state of the server. -/
structure Amid (server : FileHost → Prop) (w : Household ι) (a : Tenant ι) : Prop where
  /-- The clients are the same. -/
  client : w.client = a.client
  /-- The sockets of the clients are the same. -/
  socket : w.socket = a.socket
  /-- The sockets of the request handlers are the same. -/
  inbox : w.inbox = a.inbox
  /-- Between two sessions the server is the same. -/
  idle : a.visit = none → server w.server
  /-- In a session it is what it has become. -/
  busy : ∀ x, a.visit = some x → w.Proper x.device x.deed ∧
    ∃ s, server s ∧ ReflTransGen (Pair.Step peers) (w.start x.device x.deed) (x.on s)

omit [DecidableEq ι] in
theorem Amid.mono {server server' : FileHost → Prop} {w : Household ι} {a : Tenant ι}
    (ha : a.Amid server w) (h : ∀ s, server s → server' s) : a.Amid server' w where
  client := ha.client
  socket := ha.socket
  inbox := ha.inbox
  idle hv := h _ (ha.idle hv)
  busy x hx :=
    have ⟨hp, s, hs, hreach⟩ := ha.busy x hx
    ⟨hp, s, h s hs, hreach⟩

section Alone

variable {u : Name} {q : Path} {w w₀ : Household ι} {a a' : Tenant ι} {m m' : Machine}
  {ls ds : List (Household.Done ι)} {acts : List (Act Name Contents)} {c c' : Tenant ι × Machine}

omit [DecidableEq ι] in
/-- An operation changes nothing but the machine. -/
theorem exec_settings {o : FileOp} {h s : FileHost} {v : o.Res} (hx : o.exec h = .ok (v, s)) :
    s = { h with machine := s.machine } := by
  rcases FileOp.exec_cases hx with
    rfl | ⟨f, data, path, bytes, rfl, rfl⟩ | ⟨f, m, rfl, hm, rfl⟩ | ⟨f, rfl⟩
  · rfl
  · rfl
  · rfl
  · obtain rfl : (h.copyFileToSyncDir f).2 = s := congrArg Prod.snd (Except.ok.inj hx)
    rw [FileHost.copyFileToSyncDir]
    split <;> rfl

omit [DecidableEq ι] in
theorem host_of_go {x : Visit ι} {y : PeerPair Bool Bool}
    (hs : Pair.Step peers (x.on (userHost m u)) y) :
    y.right.host = userHost y.right.host.machine u := by
  rcases Visit.step_cases hs with ⟨hsame, -⟩ | ⟨i, out, hr, -⟩
  · rw [hsame]
    rfl
  · rcases Endpoint.host_of_step hr with hsame | ⟨o, k, v, -, hx⟩
    · exact hsame.symm ▸ rfl
    · exact exec_settings hx

/-- **A household does what its user does.** -/
theorem Amid.move (hd : Household.Diary q w₀ ds acts w) (ha : a.Amid (· = userHost m u) w)
    (hm : Move u ls (a, m) (a', m')) : ∃ acts' w',
      Household.Diary q w₀ (ds ++ ls) acts' w' ∧ a'.Amid (· = userHost m' u) w' := by
  cases hm with
  | @edit _ _ i hi m' =>
    rw [List.append_nil]
    refine ⟨acts, _, hd.edit i m', by simp [Household.edit, Tenant.edit, ha.client], ha.socket,
      ha.inbox, ha.idle, fun x hx ↦ ?_⟩
    obtain ⟨hp, s, hs, hreach⟩ := ha.busy x hx
    rw [Household.start_edit (hi x hx)]
    exact ⟨hp.congr (by simp [Household.edit, hi x hx]) rfl, s, hs, hreach⟩
  | enter hv hp =>
    rw [List.append_nil]
    have hw : a.household (userHost m u) = w := by
      rw [household, ← ha.client, ← ha.socket, ← ha.inbox, ← ha.idle hv]
    refine ⟨acts, w, hd, ha.client, ha.socket, ha.inbox, fun hnone ↦ ?_, ?_⟩
    · cases hnone
    · rintro x ⟨⟩
      subst hw
      exact ⟨hp, _, rfl, .refl⟩
  | go hv hs =>
    rw [List.append_nil]
    refine ⟨acts, w, hd, ha.client, ha.socket, ha.inbox, fun hnone ↦ ?_, ?_⟩
    · cases hnone
    · rintro x ⟨⟩
      obtain ⟨hp, s, rfl, hreach⟩ := ha.busy _ hv
      exact ⟨hp, _, host_of_go hs, hreach.tail hs⟩
  | leave hv hret =>
    obtain ⟨hp, s, rfl, hreach⟩ := ha.busy _ hv
    refine ⟨_, _, hd.deed hp hreach hret, ?_, ?_, ?_, fun _ ↦ rfl, fun x hx ↦ by cases hx⟩
    · rw [Household.leave, Tenant.leave, ha.client]
      rfl
    · rw [Household.leave, Tenant.leave, ha.socket]
      rfl
    · rw [Household.leave, Tenant.leave, ha.inbox]
      rfl

/-- Through a run of one user alone its household does what the user does. -/
theorem Amid.lone (ha : c.1.Amid (· = userHost c.2 u) w) (hr : Sharing.Lone (Move u) c ls c') :
    ∃ acts w', Household.Diary q w ls acts w' ∧ c'.1.Amid (· = userHost c'.2 u) w' := by
  induction hr with
  | nil => exact ⟨[], w, .nil w, ha⟩
  | snoc _ hm ih =>
    obtain ⟨acts, w', hd, ha'⟩ := ih
    exact ha'.move hd hm

/-- What is true of a user that has the server alone: it is a sound household, or in a session of
one. -/
def Fit (u : Name) (q : Path) (c : Tenant ι × Machine) : Prop :=
  ∃ w : Household ι, w.Sound q ∧ Houses w.server q ∧ c.1.Amid (· = userHost c.2 u) w

theorem Fit.move (hc : Fit u q c) (hm : Move u ls c c') : Fit u q c' := by
  obtain ⟨w, hw, hh, ha⟩ := hc
  obtain ⟨acts, w', hd, ha'⟩ := ha.move (q := q) (.nil w) hm
  exact ⟨w', (hw.run hd.run).1, hd.houses hw hh, ha'⟩

omit [DecidableEq ι] in
/-- The next operation of the handler is confined. -/
theorem Fit.minds {h : FileHost} {x : Visit ι} (hc : Fit u q (a, m)) (hv : a.visit = some x) :
    Endpoint.Minds (fun s o ↦ o.Confined q s) (W := sessionWire) (P := RequestHandler.sig)
      ⟨h, x.right⟩ := by
  obtain ⟨w, hw, hh, ha⟩ := hc
  obtain ⟨hp, s, rfl, hreach⟩ := ha.busy x hv
  exact (hw.kept_tame hh hp hreach).minds

end Alone

/-! ## Among others

The machine of the server, as a user sees it who has it alone, and as it is with the others. -/

/-- On this machine there is for a user what would be there on those that have nobody else's files,
whatever their clocks show later on. -/
def Sees (u : Name) (q : Path) (m : Machine) (k : (Nat → Int) → Machine) : Prop :=
  ∃ m₀ : Machine, k = m₀.withClock ∧ Alike q (userHost m u) (userHost (m₀.withClock m.clock) u)

section Among

variable {u v : Name} {p q : Path} {a a' : Tenant ι} {m m' : Machine}
  {k l : (Nat → Int) → Machine} {ls : List (Household.Done ι)}

/-- What is listed does not depend on who else there is. -/
theorem Sees.getFileInfoList_eq (hs : Sees u q m k) (clock : Nat → Int) :
    (userHost (k clock) u).getFileInfoList = (userHost m u).getFileInfoList := by
  obtain ⟨m₀, rfl, ha⟩ := hs
  rw [← ha.getFileInfoList_eq]
  rfl

/-- **What a user does among others it would do alone**, at the times at which it is its turn. -/
theorem Sees.move (hs : Sees u q m k) (hfit : ∀ clock, Fit u q (a, k clock))
    (hm : Move u ls (a, m) (a', m')) : ∃ (k' : (Nat → Int) → Machine) (g : (Nat → Int) → Nat → Int),
      Sees u q m' k' ∧ ∀ clock, Move u ls (a, k (g clock)) (a', k' clock) := by
  cases hm with
  | edit hi m' => exact ⟨k, id, hs, fun clock ↦ .edit hi m'⟩
  | enter hv hp =>
    exact ⟨k, id, hs, fun clock ↦ .enter hv (hp.congr rfl (hs.getFileInfoList_eq clock))⟩
  | leave hv hret => exact ⟨k, id, hs, fun clock ↦ .leave hv hret⟩
  | @go _ _ x y hv hgo =>
    rcases Visit.step_cases hgo with ⟨hhost, hleft⟩ | ⟨i, out, hr, hright⟩
    · rw [hhost]
      exact ⟨k, id, hs, fun clock ↦ .go hv (hleft _)⟩
    · obtain ⟨m₀, rfl, ha⟩ := hs
      have hminds {h : FileHost} := (hfit default).minds (h := h) hv
      rcases Endpoint.step_unwind (unwinds_confined q) hminds ha typed RequestHandler.body
        x.toRight with ⟨hnone, -⟩ | ⟨s, s₀, r, i', out', hs, hs₀, ha'⟩
      · cases hr.symm.trans hnone
      · cases hr.symm.trans hs
        obtain ⟨g, hg⟩ := step_withClock (fun f k hk ↦ hminds (h := userHost m u) _ k hk) hs₀
        refine ⟨s₀.machine.withClock, g, ⟨s₀.machine, rfl, ?_⟩, fun clock ↦ ?_⟩
        · rw [host_of_go hgo] at ha'
          have hbeyond := beyond_of_step hs₀
          exact ha'.eq_userHost hbeyond ▸ ha'
        · exact .go hv (hright _ _ (hg clock))

/-- **What another user does it does not notice**, except that time has passed. -/
theorem Sees.other (hpq : Beside p q) (hs : Sees u q m k) (hl : Sees v p m l)
    (hfit : ∀ clock, Fit v p (a, l clock)) (hm : Move v ls (a, m) (a', m')) : Sees u q m' k := by
  obtain ⟨m₀, rfl, ha⟩ := hs
  obtain ⟨_, -, hv⟩ := hl
  have hbeside : SameBeside q m m' := by
    cases hm with
    | go hvisit hgo =>
      rcases Visit.step_cases hgo with ⟨hhost, -⟩ | ⟨i, out, hr, -⟩
      · rw [hhost]
        exact .rfl' q m
      · rcases Endpoint.host_of_step hr with hsame | ⟨o, k, r, hk, hx⟩
        · rw [hsame]
          exact .rfl' q m
        · have hc := (hfit default).minds (h := userHost m v) hvisit o k hk
          exact sameBeside_of_exec hpq hv.left hc hx
    | _ => exact .rfl' q m
  exact ⟨m₀, rfl, ha.beside hbeside⟩

/-- **A session is carried on among others as it is alone.** -/
theorem go_on {w : Household ι} {i : ι} {deed : Deed} (hw : w.Sound q) (hh : Houses w.server q)
    (hp : w.Proper i deed) {x : Visit ι} {s : FileHost} {y : PeerPair Bool Bool}
    (hv : a.visit = some x) (ha : Alike q s (userHost m u))
    (hx : ReflTransGen (Pair.Step peers) (w.start i deed) (x.on s))
    (hy : ReflTransGen (Pair.Step peers) (x.on s) y) :
    ∃ m', Sharing.Lone (Move u) (a, m) [] ({ a with visit := some (x.next y) }, m') ∧
      Alike q y.right.host (userHost m' u) := by
  induction hy with
  | refl =>
    have hsame : { a with visit := some (x.next (x.on s)) } = a := by
      cases a
      cases hv
      rfl
    exact ⟨m, hsame.symm ▸ .nil _, ha⟩
  | @tail y z hy hs ih =>
    obtain ⟨m', hlone, ha'⟩ := ih
    have hgo {m'' : Machine} (hs' : Pair.Step peers ((x.next y).on (userHost m' u))
        ((x.next z).on (userHost m'' u))) :
        Sharing.Lone (Move u) (a, m) [] ({ a with visit := some (x.next z) }, m'') :=
      hlone.snoc (.go rfl hs')
    rcases Visit.step_cases (x := x.next y) hs with ⟨hhost, hleft⟩ | ⟨i, out, hr, hright⟩
    · exact ⟨m', hgo (hleft _), hhost ▸ ha'⟩
    · have hminds := (hw.kept_tame hh hp (hx.trans hy)).minds (h := y.right.host) (p := q)
      rcases Endpoint.step_unwind (unwinds_confined q) hminds ha' typed RequestHandler.body
        y.toRight with ⟨hnone, -⟩ | ⟨s₁, s₂, r, i', out', hs₁, hs₂, ha''⟩
      · cases hr.symm.trans hnone
      · cases hr.symm.trans hs₁
        have hs' := hright _ _ hs₂
        exact ⟨s₂.machine, hgo (host_of_go hs' ▸ hs'), host_of_go hs' ▸ ha''⟩

end Among
end Tenant

/-! ## The server

All users at once, and the two main results. -/

/-- The users of a server. -/
structure Roll (υ : Type) where
  /-- The names of the users. -/
  name : υ → Name
  /-- The names of the users can be names of directories. -/
  userId : ∀ u, UserId (name u)
  /-- No two users have the same name. -/
  injective : Function.Injective name

/-- All users, and the machine of the server. -/
abbrev Town (υ ι : Type) := Sharing.World υ (Tenant ι) Machine

/-- A household at another time. -/
def Household.withClock {ι : Type} (w : Household ι) (clock : Nat → Int) : Household ι :=
  { w with server := w.server.withClock clock }

namespace Roll

variable {υ ι : Type}

/-- The directory of a user. -/
def path (roll : Roll υ) (W : Town υ ι) (u : υ) : Path := userPath W.store (roll.name u)

/-- The household of a user. -/
def household (roll : Roll υ) (W : Town υ ι) (u : υ) : Household ι :=
  (W.own u).household (userHost W.store (roll.name u))

variable [DecidableEq υ] [DecidableEq ι]

/-- What the users do, in any order. -/
abbrev Run (roll : Roll υ) : Town υ ι → List (υ × Household.Done ι) → Town υ ι → Prop :=
  Sharing.Run fun u ↦ Tenant.Move (roll.name u)

/-- At rest: nobody is in a session, and every household is sound. -/
structure Rests (roll : Roll υ) (W : Town υ ι) : Prop where
  /-- The server has a working directory. -/
  here : W.store.disk.isDir W.store.cwd = true
  /-- No user is in a session. -/
  idle : ∀ u, (W.own u).visit = none
  /-- All is well with the files. -/
  sound : ∀ u, (roll.household W u).Sound (roll.path W u)

section Directories

variable {roll : Roll υ} {W : Town υ ι} {u v : υ}

omit [DecidableEq υ] [DecidableEq ι]

theorem beside (roll : Roll υ) (W : Town υ ι) (hne : v ≠ u) :
    Beside (roll.path W v) (roll.path W u) :=
  .of_ne fun he ↦ hne (roll.injective (by simpa [userDir] using he))

theorem Rests.houses (hW : roll.Rests W) (u : υ) :
    Houses (userHost W.store (roll.name u)) (roll.path W u) := by
  have hflat := (hW.sound u).flat
  refine houses_userHost (roll.userId u) hW.here fun q hq ↦ ?_
  obtain ⟨f, x, rfl, hx⟩ := hflat.mem_entriesBelow.mp hq
  exact ⟨_, f, rfl, hflat.plain hx⟩

/-- To each user the machine at rest is what it would be alone. -/
theorem Rests.sees (hW : roll.Rests W) (u : υ) :
    Tenant.Sees (roll.name u) (roll.path W u) W.store W.store.withClock :=
  ⟨W.store, rfl, .refl (hW.houses u)⟩

theorem Rests.sound_withClock (hW : roll.Rests W) (u : υ) (clock : Nat → Int) :
    ((roll.household W u).withClock clock).Sound (roll.path W u) :=
  have hs := hW.sound u
  hs.on ⟨hs.flat.1, hs.flat.2, hs.flat.3, hs.flat.4⟩ rfl rfl

/-- Every user is at the beginning of a run. -/
theorem Rests.amid (hW : roll.Rests W) (u : υ) (clock : Nat → Int) :
    (W.own u).Amid (· = userHost (W.store.withClock clock) (roll.name u))
      ((roll.household W u).withClock clock) :=
  ⟨rfl, rfl, rfl, fun _ ↦ rfl, fun x hx ↦ by rw [hW.idle u] at hx; cases hx⟩

theorem Rests.fit (hW : roll.Rests W) (u : υ) (clock : Nat → Int) :
    Tenant.Fit (roll.name u) (roll.path W u) (W.own u, W.store.withClock clock) :=
  ⟨_, hW.sound_withClock u clock, (hW.houses u).withClock clock, hW.amid u clock⟩

end Directories

omit [DecidableEq υ] in
/-- **The users do not notice each other.** -/
theorem apart (roll : Roll υ) (W : Town υ ι) :
    Sharing.Apart (fun u ↦ Tenant.Move (ι := ι) (roll.name u))
      (fun u ↦ Tenant.Sees (roll.name u) (roll.path W u))
      (fun u ↦ Tenant.Fit (roll.name u) (roll.path W u)) where
  keeps hc hm := hc.move hm
  own hs hfit hm := hs.move hfit hm
  others hne hs hl hfit hm := hs.other (roll.beside W hne) hl hfit hm

/-- A user can carry out a deed to its end, and need not wait for anybody. -/
def CanFinish (roll : Roll υ) (W : Town υ ι) (u : υ) (i : ι) (deed : Deed) : Prop :=
  ∃ b W', roll.Run W [(u, ⟨i, deed, b⟩)] W' ∧ (W'.own u).visit = none ∧
    ∀ v, v ≠ u → W'.own v = W.own v

section Runs

variable {roll : Roll υ} {W W' : Town υ ι} {tr : List (υ × Household.Done ι)} {u : υ}

/-- A user's part of a run is a run of the user's household. -/
theorem Rests.alone (hW : roll.Rests W) (hr : roll.Run W tr W') (u : υ) :
    ∃ clock w acts m, Household.Diary (roll.path W u) ((roll.household W u).withClock clock)
        (part u tr) acts w ∧ w.Sound (roll.path W u) ∧ Houses w.server (roll.path W u) ∧
      (W'.own u).Amid (· = userHost m (roll.name u)) w ∧
      Alike (roll.path W u) (userHost W'.store (roll.name u)) (userHost m (roll.name u)) := by
  obtain ⟨k, g, ⟨m₀, rfl, ha⟩, hlone⟩ := (roll.apart W).lone hW.sees hW.fit hr u
  obtain ⟨acts, w, hd, hw⟩ :=
    (hW.amid u (g W'.store.clock)).lone (q := roll.path W u) (hlone W'.store.clock)
  have hsound := hW.sound_withClock u (g W'.store.clock)
  have hhouses := (hW.houses u).withClock (g W'.store.clock)
  exact ⟨_, w, acts, _, hd, (hsound.run hd.run).1, hd.houses hsound hhouses, hw, ha⟩

/-- Between two sessions nothing is left on the sockets of a user. -/
theorem Rests.tidy (hW : roll.Rests W) (hr : roll.Run W tr W') (u : υ) (i : ι) :
    ((W'.own u).socket i = none ∨ (W'.own u).socket i = some []) ∧
      (W'.own u).inbox i = some [] := by
  obtain ⟨clock, w, acts, m, -, hw, -, hd, -⟩ := hW.alone hr u
  rw [← hd.socket, ← hd.inbox]
  exact ⟨(hw.tidy i).socket, (hw.tidy i).inbox⟩

/-- What is listed for a user is not changed by others. -/
theorem Rests.list_eq (hW : roll.Rests W) (hr : roll.Run W tr W') {v : υ} (hne : v ≠ u)
    {ls : List (Household.Done ι)} {a : Tenant ι} {m : Machine}
    (hm : Tenant.Move (roll.name v) ls (W'.own v, W'.store) (a, m)) :
    (userHost m (roll.name u)).getFileInfoList =
      (userHost W'.store (roll.name u)).getFileInfoList := by
  obtain ⟨k, g, hs, -⟩ := (roll.apart W).lone hW.sees hW.fit hr u
  obtain ⟨l, g', hl, hlone⟩ := (roll.apart W).lone hW.sees hW.fit hr v
  have hs' := (roll.apart W).others hne hs hl
    (fun clock ↦ (hlone clock).keeps (roll.apart W) (hW.fit v _)) hm
  exact (hs'.getFileInfoList_eq default).symm.trans (hs.getFileInfoList_eq default)

/-- **A session that is ready alone can be finished among others.** -/
theorem canFinish {q : Path} {w : Household ι} {m : Machine} (hw : w.Sound q)
    (hh : Houses w.server q) (hd : (W.own u).Amid (· = userHost m (roll.name u)) w)
    (ha : Alike q (userHost W.store (roll.name u)) (userHost m (roll.name u))) {x : Visit ι}
    (hv : (W.own u).visit = some x) (hready : w.Ready q x.device x.deed) :
    roll.CanFinish W u x.device x.deed := by
  obtain ⟨hp, s, rfl, hreach⟩ := hd.busy x hv
  obtain ⟨t, b, c, hend, hret⟩ := hw.completes hp hready
  obtain ⟨m', hlone, -⟩ := Tenant.go_on hw hh hp hv ha.symm hreach (hend.settlesIn.every _ hreach)
  have hleave := hlone.snoc (.leave (b := b) (c := c) rfl ⟨hret.1, hret.2⟩)
  have hrun : roll.Run W _ _ := Sharing.Run.of_lone hleave
  refine ⟨b, _, hrun, ?_, fun v hv ↦ Function.update_of_ne hv ..⟩
  simp only [Function.update_self]
  rfl

omit [DecidableEq υ] [DecidableEq ι] in
/-- Between two sessions a user's household is sound, whatever else there is on the machine. -/
theorem sound_household {q : Path} {w : Household ι} {m : Machine} (hw : w.Sound q)
    (hd : (W.own u).Amid (· = userHost m (roll.name u)) w)
    (ha : Alike q (userHost W.store (roll.name u)) (userHost m (roll.name u)))
    (hv : (W.own u).visit = none) : (roll.household W u).Sound q := by
  have hsame : roll.household W u = { w with server := userHost W.store (roll.name u) } := by
    rw [household, Tenant.household, hd.client, hd.socket, hd.inbox]
  rw [hsame]
  have hserver := hd.idle hv
  exact hw.on (ha.symm.flat (hserver ▸ hw.flat)) (hserver ▸ ha.symm.agree.view_eq)
    (hserver ▸ rfl)

/-- **A proper deed of a user who is not in a session can be begun and finished among others.** -/
theorem canFinish_of_idle {q : Path} (hw : (roll.household W u).Sound q)
    (hh : Houses (userHost W.store (roll.name u)) q) (hv : (W.own u).visit = none) {i : ι}
    {deed : Deed} (hp : (roll.household W u).Proper i deed)
    (hready : (roll.household W u).Ready q i deed) : roll.CanFinish W u i deed := by
  let W₁ : Town υ ι := ⟨Function.update W.own u ((W.own u).enter i deed), W.store⟩
  have hown : W₁.own u = (W.own u).enter i deed := Function.update_self ..
  have hamid : (W₁.own u).Amid (· = userHost W.store (roll.name u)) (roll.household W u) := by
    rw [hown]
    refine ⟨rfl, rfl, rfl, fun hnone ↦ ?_, ?_⟩
    · cases hnone
    · rintro x ⟨⟩
      exact ⟨hp, _, rfl, .refl⟩
  have hnil : roll.Run W [] W := .nil W
  have henter : roll.Run W [] W₁ := hnil.snoc (.enter hv hp)
  obtain ⟨b, W', hr, hidle, hothers⟩ :=
    canFinish hw hh hamid (.refl hh) (congrArg Tenant.visit hown) hready
  exact ⟨b, W', henter.append hr, hidle, fun v hne ↦
    (hothers v hne).trans (Function.update_of_ne hne ..)⟩

end Runs

end Roll

section Results

variable {υ ι : Type} [DecidableEq υ] [DecidableEq ι] {roll : Roll υ} {W W' : Town υ ι}
  {tr : List (υ × Household.Done ι)}

/-- **Nobody can tell that there are other users**: whatever they all do and in which order, each
user's part of it is a run of the household of that user alone, and what is in the user's directory
is what the history of that run makes of what was in it. -/
theorem users_undisturbed (hW : roll.Rests W) (hr : roll.Run W tr W') (u : υ) :
    ∃ clock w acts, Household.Diary (roll.path W u) ((roll.household W u).withClock clock)
        (part u tr) acts w ∧ w.Sound (roll.path W u) ∧
      (W'.own u).Amid (Agree (roll.path W u) · (userHost W'.store (roll.name u))) w ∧
      ((W'.own u).visit = none → (roll.household W' u).contents (roll.path W u) =
        KeyedStore.after ((roll.household W u).contents (roll.path W u)) acts) := by
  obtain ⟨clock, w, acts, m, hd, hw, -, hamid, ha⟩ := hW.alone hr u
  refine ⟨clock, w, acts, hd, hw, hamid.mono fun h hm ↦ hm ▸ ha.symm.agree, fun hidle ↦ ?_⟩
  have hview : (roll.household W' u).contents (roll.path W u) = w.contents (roll.path W u) := by
    rw [Household.contents, Household.contents, hamid.idle hidle, ha.agree.view_eq]
    rfl
  rw [hview]
  exact ((hW.sound_withClock u clock).run hd.run).2

/-- **Nobody has to wait for anybody**: whatever the others are in the middle of, a user can carry
out a deed to its end, from the beginning and from wherever it is now, as long as it does not fail
on the user's own files. -/
theorem deeds_finish (hW : roll.Rests W) (hr : roll.Run W tr W') (u : υ) :
    (∀ i deed, (W'.own u).visit = none → (roll.household W' u).Proper i deed →
      (roll.household W' u).Ready (roll.path W u) i deed → roll.CanFinish W' u i deed) ∧
    ∀ x, (W'.own u).visit = some x →
      ∃ clock w acts, Household.Diary (roll.path W u) ((roll.household W u).withClock clock)
          (part u tr) acts w ∧
        (W'.own u).Amid (Agree (roll.path W u) · (userHost W'.store (roll.name u))) w ∧
        (w.Ready (roll.path W u) x.device x.deed → roll.CanFinish W' u x.device x.deed) := by
  obtain ⟨clock, w, acts, m, hd, hw, hh, hamid, ha⟩ := hW.alone hr u
  constructor
  · intro i deed hidle hp hready
    exact Roll.canFinish_of_idle (Roll.sound_household hw hamid ha hidle) ha.left hidle hp hready
  · intro x hx
    exact ⟨clock, w, acts, hd, hamid.mono fun h hm ↦ hm ▸ ha.symm.agree,
      Roll.canFinish hw hh hamid ha hx⟩

end Results

/-! ## Two users

Two users with a device each, for whom all conditions hold: the second begins an upload, and
meanwhile the first uploads a file of its own. -/

/-- The names of two users. -/
def twoNames : Roll Bool where
  name b := if b then ['u'] else ['v']
  userId b := by cases b <;> decide
  injective b c h := by cases b <;> cases c <;> first | rfl | exact absurd h (by decide)

/-- Two users, each with one device that has a file `f`, and nothing on the server yet. -/
def twoTenants : Town Bool Unit where
  own _ :=
    { client := fun _ ↦ ⟨.ofFiles Nat.cast ['c'] [(['f'], ⟨.threeBytes, 5⟩)] countPackets, false⟩
      socket := fun _ ↦ none
      inbox := fun _ ↦ some [] }
  store :=
    { disk := .ofList [([userDir ['u']], .dir), ([userDir ['v']], .dir)]
      cwd := []
      clock := Nat.cast
      order := .asStored }

theorem twoTenants_flat (b : Bool) : FlatDir twoTenants.store
    (userHost twoTenants.store (twoNames.name b)).syncDir (twoNames.path twoTenants b) where
  trailing := ⟨_, rfl⟩
  ne_net := by cases b <;> decide
  resolves := by cases b <;> decide
  flat q n hn hpre hne := by
    have hq : q = [userDir ['u']] ∨ q = [userDir ['v']] := by
      simpa [Prod.ext_iff] using List.mem_map_of_mem (f := Prod.fst) (Disk.mem_of_at?_ofList hn)
    exfalso
    rcases hq with rfl | rfl <;> cases b <;>
      first | exact hne rfl | exact absurd hpre (by decide)

theorem twoTenants_rests : twoNames.Rests twoTenants where
  here := rfl
  idle _ := rfl
  sound b := by
    refine ⟨fun i ↦ ⟨.inl rfl, rfl, rfl⟩, twoTenants_flat b, fun f x hx ↦ ?_, fun i ↦ rfl, rfl⟩
    have hat := Machine.view_eq_some.mp hx
    have hmem := List.mem_map_of_mem (f := Prod.snd) (Disk.mem_of_at?_ofList hat)
    simp at hmem

theorem twoTenants_proper (b : Bool) :
    (twoNames.household twoTenants b).Proper () (.command (.upload ['f'])) :=
  twoDesks_proper

/-- The second user has begun to upload its file. -/
def oneInside : Town Bool Unit where
  own := Function.update twoTenants.own false
    ((twoTenants.own false).enter () (.command (.upload ['f'])))
  store := twoTenants.store

theorem oneInside_run : twoNames.Run twoTenants [] oneInside :=
  have hnil : twoNames.Run twoTenants [] twoTenants := .nil twoTenants
  hnil.snoc (u := false) (.enter rfl (twoTenants_proper false))

/-- Meanwhile the first one uploads its own, and ends up with a directory of its own history. -/
theorem oneInside_undisturbed : ∃ W b clock w acts,
    twoNames.Run twoTenants [(true, ⟨(), .command (.upload ['f']), b⟩)] W ∧
      W.own false = oneInside.own false ∧
      Household.Diary [userDir ['u']] ((twoNames.household twoTenants true).withClock clock)
        [⟨(), .command (.upload ['f']), b⟩] acts w ∧
      (twoNames.household W true).contents [userDir ['u']] =
        KeyedStore.after ((twoNames.household twoTenants true).contents [userDir ['u']]) acts := by
  obtain ⟨b, W, hr, hidle, hothers⟩ :=
    Roll.canFinish_of_idle (W := oneInside) (twoTenants_rests.sound true)
      (twoTenants_rests.houses true) rfl (twoTenants_proper true) ⟨rfl, _, rfl⟩
  have hrun := oneInside_run.append hr
  obtain ⟨clock, w, acts, hd, -, -, hcontents⟩ := users_undisturbed twoTenants_rests hrun true
  exact ⟨W, b, clock, w, acts, hrun, hothers false (by decide), hd, hcontents hidle⟩

/-- The first user could carry out its upload in any case, whatever the second one does. -/
theorem oneInside_finish :
    twoNames.CanFinish oneInside true () (.command (.upload ['f'])) :=
  (deeds_finish twoTenants_rests oneInside_run true).1 () _ rfl (twoTenants_proper true)
    ⟨rfl, _, rfl⟩

end Bropdox
