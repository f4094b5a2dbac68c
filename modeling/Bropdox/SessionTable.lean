import Bropdox.Handshakes

/-!
# Who is logged in

What holds of the tables of a server after any number of handshakes that were handled one after
another: a port and a slot for every login, in the order in which they came.

## What is here

* `Server.Run` is a server that has handled some handshakes, with their answers, and
  `Server.Welcomes` the conditions under which a handshake is considered: the device number is one
  that there can be, and a login finds a free slot and a port.
* `Server.Session` is the invariant: the devices of a user and the ports of the server are given out
  in order, so that it is enough to know how many are gone.
* `Session.login` and `Session.other` are the two kinds of handshakes, and `Run.session` the
  induction over the run.
* `session_table` is what the invariant means for those who send the handshakes: the devices that
  are in use are the first ones, as many as there were logins; their ports differ; each of them is
  answered with its own port, and everybody else is refused.
* `two_logins_served` is a server after two logins, with a later handshake of the first user.
-/

set_option autoImplicit false

namespace Bropdox

open FileSystem Slots

namespace Server

open Thread

variable {s : Server} {a : SockAddr} {u : Name}

/-- The conditions under which handshakes are considered: the device number is one of those there
can be, and a login finds a device, a port, and its request handler constructed. -/
def Welcomes (s : Server) (v : Visit) : Prop :=
  v.hand.device.toNat ≤ maxConcurrentDev ∧
    (v.IsLogin → (∃ c ∈ (s.logins.entry v.hand.userid).slots, c.initialized = false) ∧
      false ∈ s.ports.portMap ∧ v.env.construct = none)

/-- A handshake, and the answers to it. -/
abbrev Record := Visit × List (SockAddr × Syn)

/-- A server has handled some handshakes. -/
inductive Run (p : UInt32) : List Record → Server → Prop
  /-- A server that has just been started has handled none. -/
  | start : Run p [] (start p)
  /-- A server that has handled some handshakes handles one more. -/
  | step {log : List Record} {s s' : Server} {v : Visit} {out : List (SockAddr × Syn)}
    (hr : Run p log s) (hv : s.Welcomes v) (hs : v.treat.run s = .ok () s')
    (hout : s.Answers v out) :
    Run p (log ++ [(v, out)]) s'

/-- The number of logins of a user. -/
def loginsOf (u : Name) (log : List Record) : Nat :=
  log.countP fun r ↦ r.1.IsLogin ∧ r.1.hand.userid = u

/-- The slot `i` of a user is in use, and this is in it. -/
def InUse (s : Server) (u : Name) (i : Nat) (c : ClientData) : Prop :=
  (s.logins.entry u).slots[i]? = some c ∧ c.initialized = true

theorem loggedIn_iff {device : UInt16} {c : ClientData} :
    s.LoggedIn u device c ↔ ∃ i, device = .ofNat (i + 1) ∧ s.InUse u i c := by
  rw [LoggedIn, Devices.at?_eq_some_iff]
  simp only [InUse, ← and_assoc, exists_and_right]

/-- The devices that are logged in after one slot has been filled that nobody used. -/
theorem loggedIn_of_inUse {s' : Server} {v : Name} {k : Nat} {c₀ : ClientData}
    (hk : k < maxConcurrentDev) (huse : ∀ u i c, s'.InUse u i c ↔
      if u = v ∧ i = k then c = c₀ else s.InUse u i c)
    (u : Name) (device : UInt16) (c : ClientData) : s'.LoggedIn u device c ↔
      if u = v ∧ device = .ofNat (k + 1) then c = c₀ else s.LoggedIn u device c := by
  simp only [loggedIn_iff, huse]
  constructor
  · rintro ⟨i, rfl, hc⟩
    by_cases hcase : u = v ∧ i = k
    · rw [if_pos hcase] at hc
      rwa [if_pos ⟨hcase.1, hcase.2 ▸ rfl⟩]
    · rw [if_neg hcase] at hc
      rw [if_neg fun h ↦ hcase ⟨h.1, Devices.device_inj (Devices.lt_of_getElem? hc.1) hk h.2⟩]
      exact ⟨i, rfl, hc⟩
  · intro hc
    split at hc
    · rename_i hcase
      exact ⟨k, hcase.2, by rwa [if_pos ⟨hcase.1, rfl⟩]⟩
    · rename_i hcase
      obtain ⟨i, rfl, hc⟩ := hc
      refine ⟨i, rfl, ?_⟩
      rwa [if_neg]
      rintro ⟨rfl, rfl⟩
      exact hcase ⟨rfl, rfl⟩

/-- What is true of the tables after some handshakes, `n` ports being taken. -/
structure Session (p : UInt32) (n : Nat) (log : List Record) (s : Server) : Prop where
  /-- No mutex is left locked. -/
  unlocked : s.Unlocked
  /-- The base port. -/
  serverPort : s.ports.serverPort = p
  /-- The port map has an element for each port. -/
  length : s.ports.portMap.length = 65535 - p.toNat
  /-- The first `n` of them are taken. -/
  ports : Filled id n s.ports.portMap
  /-- One port is the replica manager's. -/
  ports_pos : 0 < n
  /-- The first devices of each user are in use, as many as there were logins. -/
  devices : ∀ u, Filled ClientData.initialized (loginsOf u log) (s.logins.entry u).slots
  /-- The ports of the devices are among those taken, behind that of the replica manager. -/
  range : ∀ u i c, s.InUse u i c → p.toNat + 2 ≤ c.port.toNat ∧ c.port.toNat ≤ p.toNat + n
  /-- No two have the same. -/
  distinct : ∀ u i c u' i' c', s.InUse u i c → s.InUse u' i' c' → c.port = c'.port →
    u = u' ∧ i = i'
  /-- A device knows its number. -/
  device : ∀ u i c, s.InUse u i c → c.handler.device = .ofNat (i + 1)
  /-- Who has logged in is still there. -/
  granted : ∀ v out, (v, out) ∈ log → v.IsLogin → ∃ i c,
    s.InUse v.hand.userid i c ∧ out = [(v.clientAddr, ⟨true, c.port, .ofNat (i + 1)⟩)]
  /-- Who is there has logged in. -/
  handedOut : ∀ u i c, s.InUse u i c → ∃ v out, (v, out) ∈ log ∧ v.IsLogin ∧
    v.hand.userid = u ∧ out = [(v.clientAddr, ⟨true, c.port, .ofNat (i + 1)⟩)]

theorem ports_mk (m : PortManager) : ({ ports := m } : Server).ports = m := rfl

/-- By way of `ports_mk`, so that nothing has to be computed. -/
theorem ports_start (p : UInt32) : (start p).ports = (PortManager.new p).reservePort.2 :=
  (congrArg Server.ports (rfl : start p = { ports := (PortManager.new p).reservePort.2 })).trans
    (ports_mk _)

theorem toNat_maxPort : maxPort.toNat = 65535 := rfl

/-- A server that has just been started. -/
theorem session_start {p : UInt32} (hp : p.toNat + 1 ≤ 65535) : Session p 1 [] (start p) := by
  have hlen : (maxPort - p).toNat = 65535 - p.toNat := by
    rw [UInt32.toNat_sub_of_le _ _ (UInt32.le_iff_toNat_le.mpr (Nat.le_of_succ_le hp)),
      toNat_maxPort]
  have hnew : Filled id 0 _ := filled_replicate (a := false) rfl (maxPort - p).toNat
  have hroom : 0 < (List.replicate (maxPort - p).toNat false).length := by
    rw [List.length_replicate, hlen]
    omega
  have hfree : firstFree id (PortManager.new p).portMap = some 0 := by
    rw [PortManager.new, hnew.firstFree, if_pos hroom]
  have hports : (start p).ports
      = ⟨p, (List.replicate (maxPort - p).toNat false).set 0 true⟩ := by
    rw [ports_start, PortManager.reservePort_free hfree, PortManager.new]
  have hset := hnew.set (a := true) hroom rfl
  have hempty : ∀ u, (start p).logins.entry u = {} := fun _ ↦ rfl
  have hnone : ∀ u i c, ¬ (start p).InUse u i c := by
    rintro u i c ⟨hc, hused⟩
    rw [hempty] at hc
    rw [List.eq_of_mem_replicate (List.mem_of_getElem? hc)] at hused
    cases hused
  refine { unlocked := fun _ ↦ rfl, serverPort := ?_, length := ?_, ports := ?_,
           ports_pos := Nat.one_pos, devices := fun u ↦ ?_,
           range := fun u i c h ↦ absurd h (hnone u i c),
           distinct := fun u i c _ _ _ h ↦ absurd h (hnone u i c),
           device := fun u i c h ↦ absurd h (hnone u i c),
           granted := fun v out h ↦ absurd h List.not_mem_nil,
           handedOut := fun u i c h ↦ absurd h (hnone u i c) }
  · rw [hports]
  · rw [hports, List.length_set, List.length_replicate, hlen]
  · rw [hports]
    simpa only [Nat.zero_add] using hset
  · rw [hempty]
    exact filled_replicate rfl maxConcurrentDev

/-! ## A login that is served

What the login leaves in the table, slot by slot and user by user. -/

section Welcome

variable {v : Visit} {k : Nat} {u : Name}

theorem loginsOf_concat {log : List Record} {out : List (SockAddr × Syn)} (hlogin : v.IsLogin) :
    loginsOf u (log ++ [(v, out)])
      = if u = v.hand.userid then loginsOf u log + 1 else loginsOf u log := by
  by_cases hu : u = v.hand.userid
  · simp [loginsOf, hlogin, hu]
  · simp [loginsOf, hlogin, hu, Ne.symm hu]

theorem slots_welcome (hk : k < maxConcurrentDev) :
    ((s.welcome v k).logins.entry v.hand.userid).slots = (s.logins.entry v.hand.userid).slots.set k
      (loggedIn v.hand.userid v.clientAddr s.ports.reservePort.1 k) := by
  rw [welcome, LoginManager.entry_setEntry, Devices.slots_assign hk]

theorem entry_welcome_of_ne (hu : u ≠ v.hand.userid) :
    (s.welcome v k).logins.entry u = s.logins.entry u :=
  LoginManager.entry_setEntry_of_ne hu

/-- The slots are as before, but for the one that is taken. -/
theorem inUse_welcome (hk : k < maxConcurrentDev) {i : Nat} {c : ClientData} :
    (s.welcome v k).InUse u i c ↔ if u = v.hand.userid ∧ i = k then
      c = loggedIn v.hand.userid v.clientAddr s.ports.reservePort.1 k else s.InUse u i c := by
  have hlength : k < (s.logins.entry v.hand.userid).slots.length := by rwa [Devices.length_slots]
  by_cases hu : u = v.hand.userid
  · rw [hu, InUse, slots_welcome hk, List.getElem?_set, if_pos hlength]
    by_cases hi : i = k
    · rw [if_pos hi.symm, if_pos ⟨rfl, hi⟩, Option.some.injEq, eq_comm, and_iff_left_iff_imp]
      rintro rfl
      rfl
    · rw [if_neg (Ne.symm hi), if_neg fun h' ↦ hi h'.2, InUse]
  · rw [InUse, entry_welcome_of_ne hu, if_neg fun h' ↦ hu h'.1, InUse]

/-- A slot that is in use after a login is the one that was given out, or it was in use before. -/
theorem cases_welcome (hk : k < maxConcurrentDev) {i : Nat} {c : ClientData}
    (hc : (s.welcome v k).InUse u i c) :
    (u = v.hand.userid ∧ i = k ∧
      c = loggedIn v.hand.userid v.clientAddr s.ports.reservePort.1 k) ∨ s.InUse u i c := by
  rw [inUse_welcome hk] at hc
  split at hc
  · next hu => exact .inl ⟨hu.1, hu.2, hc⟩
  · exact .inr hc

end Welcome

/-! ## One more handshake

The two kinds of handshakes: a login that is served, and one that changes nothing. -/

namespace Session

variable {p : UInt32} {n : Nat} {log : List Record} {s' : Server} {v : Visit}
  {out : List (SockAddr × Syn)}

/-- A handshake that is no login. -/
theorem other (h : Session p n log s) (hlogin : ¬ v.IsLogin) (hs : SameTables s s') :
    Session p n (log ++ [(v, out)]) s' := by
  have hcount : ∀ u, loginsOf u (log ++ [(v, out)]) = loginsOf u log := by
    intro u
    simp [loginsOf, hlogin]
  have hiff : ∀ u i c, s'.InUse u i c ↔ s.InUse u i c := fun u i c ↦ by
    rw [InUse, InUse, hs.entry]
  refine { unlocked := fun m ↦ (congrFun hs.held m).trans (h.unlocked m), serverPort := ?_,
           length := ?_, ports := ?_, ports_pos := h.ports_pos, devices := fun u ↦ ?_, range := ?_,
           distinct := ?_, device := ?_, granted := fun w out' hmem hw ↦ ?_,
           handedOut := fun u i c hc ↦ ?_ }
  · rw [hs.ports, h.serverPort]
  · rw [hs.ports, h.length]
  · rw [hs.ports]
    exact h.ports
  · rw [hcount, hs.entry]
    exact h.devices u
  · simpa only [hiff] using h.range
  · simpa only [hiff] using h.distinct
  · simpa only [hiff] using h.device
  · rcases List.mem_append.mp hmem with hmem | hmem
    · simpa only [hiff] using h.granted w out' hmem hw
    · cases List.mem_singleton.mp hmem
      exact absurd hw hlogin
  · obtain ⟨w, out', hmem, hw⟩ := h.handedOut u i c ((hiff u i c).mp hc)
    exact ⟨w, out', List.mem_append_left _ hmem, hw⟩

/-- The next port. -/
theorem reservePort (h : Session p n log s) (hn : n < s.ports.portMap.length) :
    s.ports.reservePort.1.toNat = p.toNat + n + 1 ∧
      s.ports.reservePort.2 = ⟨p, s.ports.portMap.set n true⟩ := by
  have hlen := h.length
  rw [PortManager.reservePort, h.ports.firstFree, if_pos hn, h.serverPort]
  refine ⟨?_, rfl⟩
  dsimp only
  rw [UInt32.toNat_add, UInt32.toNat_ofNat', Nat.mod_eq_of_lt (a := n + 1), Nat.mod_eq_of_lt,
    Nat.add_assoc]
  · omega
  · omega

/-- The port that is next given out is not in use yet. -/
theorem port_ne {u : Name} {i : Nat} {c : ClientData} (h : Session p n log s)
    (hn : n < s.ports.portMap.length) (hc : s.InUse u i c) : c.port ≠ s.ports.reservePort.1 := by
  have hrange := h.range u i c hc
  obtain ⟨hq, -⟩ := h.reservePort hn
  intro he
  rw [he, hq] at hrange
  omega

/-- A slot that is in use stays in use when the next one is given out. -/
theorem inUse_welcome_of_inUse {u : Name} {i : Nat} {c : ClientData} (h : Session p n log s)
    (hk : loginsOf v.hand.userid log < maxConcurrentDev) (hc : s.InUse u i c) :
    (s.welcome v (loginsOf v.hand.userid log)).InUse u i c := by
  rw [inUse_welcome hk, if_neg]
  · exact hc
  · rintro ⟨rfl, rfl⟩
    exact Nat.lt_irrefl _ ((h.devices _).lt_of_used hc.1 hc.2)

/-- After a login the user has one more device in use, and the others have as many as before. -/
theorem devices_welcome (h : Session p n log s) (hlogin : v.IsLogin)
    (hk : loginsOf v.hand.userid log < maxConcurrentDev) (u : Name) :
    Filled ClientData.initialized (loginsOf u (log ++ [(v, out)]))
      ((s.welcome v (loginsOf v.hand.userid log)).logins.entry u).slots := by
  rw [loginsOf_concat hlogin]
  split
  · rename_i hu
    rw [hu, slots_welcome hk]
    exact (h.devices _).set (by rwa [Devices.length_slots]) rfl
  · rename_i hu
    rw [entry_welcome_of_ne hu]
    exact h.devices u

/-- The port of a login is one that no other device has. -/
theorem distinct_welcome (h : Session p n log s) (hn : n < s.ports.portMap.length)
    (hk : loginsOf v.hand.userid log < maxConcurrentDev) {u u' : Name} {i i' : Nat}
    {c c' : ClientData} (hc : (s.welcome v (loginsOf v.hand.userid log)).InUse u i c)
    (hc' : (s.welcome v (loginsOf v.hand.userid log)).InUse u' i' c') (hport : c.port = c'.port) :
    u = u' ∧ i = i' := by
  rcases cases_welcome hk hc with ⟨hu, hi, rfl⟩ | hc <;>
    rcases cases_welcome hk hc' with ⟨hu', hi', rfl⟩ | hc'
  · exact ⟨hu.trans hu'.symm, hi.trans hi'.symm⟩
  · exact absurd hport.symm (h.port_ne hn hc')
  · exact absurd hport (h.port_ne hn hc)
  · exact h.distinct u i c u' i' c' hc hc' hport

/-- Every login is still there after another one. -/
theorem granted_welcome (h : Session p n log s)
    (hk : loginsOf v.hand.userid log < maxConcurrentDev)
    (hout : out = [(v.clientAddr,
      ⟨true, s.ports.reservePort.1, .ofNat (loginsOf v.hand.userid log + 1)⟩)])
    {w : Visit} {out' : List (SockAddr × Syn)} (hmem : (w, out') ∈ log ++ [(v, out)])
    (hw : w.IsLogin) : ∃ i c,
      (s.welcome v (loginsOf v.hand.userid log)).InUse w.hand.userid i c ∧
        out' = [(w.clientAddr, ⟨true, c.port, .ofNat (i + 1)⟩)] := by
  rcases List.mem_append.mp hmem with hmem | hmem
  · obtain ⟨i, c, hc, hout'⟩ := h.granted w out' hmem hw
    exact ⟨i, c, h.inUse_welcome_of_inUse hk hc, hout'⟩
  · cases List.mem_singleton.mp hmem
    refine ⟨loginsOf v.hand.userid log, loggedIn v.hand.userid v.clientAddr s.ports.reservePort.1
      (loginsOf v.hand.userid log), ?_, hout⟩
    rw [inUse_welcome hk, if_pos ⟨rfl, rfl⟩]

/-- Whatever is in use after a login has been given out by some login. -/
theorem handedOut_welcome (h : Session p n log s) (hlogin : v.IsLogin)
    (hk : loginsOf v.hand.userid log < maxConcurrentDev)
    (hout : out = [(v.clientAddr,
      ⟨true, s.ports.reservePort.1, .ofNat (loginsOf v.hand.userid log + 1)⟩)])
    {u : Name} {i : Nat} {c : ClientData}
    (hc : (s.welcome v (loginsOf v.hand.userid log)).InUse u i c) :
    ∃ w out', (w, out') ∈ log ++ [(v, out)] ∧ w.IsLogin ∧ w.hand.userid = u ∧
      out' = [(w.clientAddr, ⟨true, c.port, .ofNat (i + 1)⟩)] := by
  rcases cases_welcome hk hc with ⟨rfl, rfl, rfl⟩ | hc
  · exact ⟨v, out, List.mem_append_right _ (List.mem_singleton_self _), hlogin, rfl, hout⟩
  · obtain ⟨w, out', hmem, hw⟩ := h.handedOut u i c hc
    exact ⟨w, out', List.mem_append_left _ hmem, hw⟩

/-- A login that is served. -/
theorem login (h : Session p n log s) (hlogin : v.IsLogin) (hn : n < s.ports.portMap.length)
    (hk : loginsOf v.hand.userid log < maxConcurrentDev)
    (hout : out = [(v.clientAddr,
      ⟨true, s.ports.reservePort.1, .ofNat (loginsOf v.hand.userid log + 1)⟩)]) :
    Session p (n + 1) (log ++ [(v, out)]) (s.welcome v (loginsOf v.hand.userid log)) := by
  have hpos := h.ports_pos
  obtain ⟨hq, hports⟩ := h.reservePort hn
  refine { unlocked := h.unlocked, serverPort := ?_, length := ?_, ports := ?_,
           ports_pos := Nat.succ_pos n, devices := h.devices_welcome hlogin hk,
           range := fun u i c hc ↦ ?_,
           distinct := fun _ _ _ _ _ _ hc hc' ↦ h.distinct_welcome hn hk hc hc',
           device := fun u i c hc ↦ ?_,
           granted := fun _ _ hmem hw ↦ h.granted_welcome hk hout hmem hw,
           handedOut := fun _ _ _ hc ↦ h.handedOut_welcome hlogin hk hout hc }
  · rw [welcome, hports]
  · rw [welcome, hports, List.length_set, h.length]
  · simpa only [welcome, hports] using h.ports.set hn rfl
  · rcases cases_welcome hk hc with ⟨-, -, rfl⟩ | hc
    · rw [loggedIn, hq]
      omega
    · have hrange := h.range u i c hc
      omega
  · rcases cases_welcome hk hc with ⟨-, rfl, rfl⟩ | hc
    · rfl
    · exact h.device u i c hc

end Session

variable {p : UInt32} {log : List Record} {v : Visit} {out : List (SockAddr × Syn)}

/-- A login that is welcome goes to the next device. -/
theorem Session.firstFree {n : Nat} (h : Session p n log s) (hv : s.Welcomes v)
    (hlogin : v.IsLogin) : loginsOf v.hand.userid log < maxConcurrentDev ∧
      Slots.firstFree ClientData.initialized (s.logins.entry v.hand.userid).slots
        = some (loginsOf v.hand.userid log) := by
  obtain ⟨⟨c, hc, hfree⟩, -, -⟩ := hv.2 hlogin
  have hk := (h.devices _).lt_of_free hc hfree
  refine ⟨(Devices.length_slots _).symm ▸ hk, ?_⟩
  rw [(h.devices _).firstFree, if_pos hk]

/-- **The tables after any number of handshakes.** -/
theorem Run.session (hp : p.toNat + 1 ≤ 65535) (hr : Run p log s) : ∃ n, Session p n log s := by
  induction hr with
  | start => exact ⟨1, session_start hp⟩
  | step hr hv hs hout ih =>
    rename_i log s s' v out
    obtain ⟨n, h⟩ := ih
    by_cases hlogin : v.IsLogin
    · obtain ⟨hk, hfree⟩ := h.firstFree hv hlogin
      obtain ⟨-, hport, hcon⟩ := hv.2 hlogin
      have hwelcome := treat_admitted hlogin h.unlocked hfree hcon
      obtain rfl : s.welcome v _ = s' := by
        rw [hwelcome] at hs
        cases hs
        rfl
      refine ⟨n + 1, h.login hlogin (h.ports.lt_of_free hport rfl) hk ?_⟩
      rw [Answers, leaves_ok hwelcome] at hout
      exact (List.append_cancel_left hout).symm
    · refine ⟨n, h.other hlogin ?_⟩
      rw [← leaves_ok hs]
      exact sameTables_leaves hlogin

/-! ## What can be read off the table

From the invariant back to devices, ports and answers. -/

section Reading

variable {n : Nat}

/-- Who is logged in. -/
theorem Session.loggedIn_iff (h : Session p n log s) (u : Name) (device : UInt16) :
    (∃ c, s.LoggedIn u device c) ↔ 1 ≤ device.toNat ∧ device.toNat ≤ loginsOf u log := by
  simp only [Server.loggedIn_iff]
  constructor
  · rintro ⟨c, i, rfl, hc⟩
    rw [toNat_device (Devices.lt_of_getElem? hc.1)]
    exact ⟨Nat.succ_pos i, (h.devices u).lt_of_used hc.1 hc.2⟩
  · rintro ⟨hpos, hle⟩
    have hlt : device.toNat - 1 < loginsOf u log := by omega
    have hget := List.getElem?_eq_getElem (Nat.lt_of_lt_of_le hlt (h.devices u).le)
    refine ⟨_, device.toNat - 1, ?_, hget, (h.devices u).used_of_lt hget hlt⟩
    rw [Nat.sub_add_cancel hpos, UInt16.ofNat_toNat]

/-- A device that is in use answers for itself. -/
theorem Session.answers (h : Session p n log s) {i : Nat} {c : ClientData}
    (hc : s.InUse v.hand.userid i c) (hdevice : v.hand.device = .ofNat (i + 1)) :
    s.Answers v [(v.clientAddr, ⟨true, c.port, v.hand.device⟩)] := by
  have hat := Devices.at?_eq_some_iff.mpr ⟨i, hdevice, hc.1⟩
  have hne : v.hand.device ≠ 0 := by
    rintro h0
    rw [h0, Devices.at?, if_pos rfl] at hat
    cases hat
  have hans := answers_device hne hat
  rw [if_pos hc.2, h.device _ i c hc, ← hdevice] at hans
  exact hans

/-- A device that is not in use is refused. -/
theorem answers_refusal (hne : v.hand.device ≠ 0)
    (hle : v.hand.device.toNat ≤ maxConcurrentDev)
    (hnone : ∀ i c, v.hand.device = .ofNat (i + 1) → ¬ s.InUse v.hand.userid i c) :
    s.Answers v [(v.clientAddr, refusal)] := by
  have hpos : 0 < v.hand.device.toNat :=
    Nat.pos_of_ne_zero fun h0 ↦ hne (UInt16.toNat_inj.mp h0)
  have hlt : v.hand.device.toNat - 1 < (s.logins.entry v.hand.userid).slots.length := by
    rw [Devices.length_slots]
    omega
  have hdevice : v.hand.device = .ofNat (v.hand.device.toNat - 1 + 1) := by
    rw [Nat.sub_add_cancel hpos, UInt16.ofNat_toNat]
  have hget := List.getElem?_eq_getElem hlt
  have hans := answers_device hne (Devices.at?_eq_some_iff.mpr ⟨_, hdevice, hget⟩)
  rwa [if_neg fun hused ↦ hnone _ _ hdevice ⟨hget, hused⟩] at hans

end Reading

/-- **The session table.** -/
theorem session_table (hp : p.toNat + 1 ≤ 65535) (hr : Run p log s) :
    -- the devices of a user are the first ones, as many as there were logins
    (∀ u, loginsOf u log ≤ maxConcurrentDev ∧ ∀ device : UInt16,
      (∃ c, s.LoggedIn u device c) ↔ 1 ≤ device.toNat ∧ device.toNat ≤ loginsOf u log) ∧
    -- each has a port of its own
    (∀ u device c, s.LoggedIn u device c → p.toNat + 2 ≤ c.port.toNat ∧ c.port.toNat ≤ 65535 ∧
      ∀ u' device' c', s.LoggedIn u' device' c' → c.port = c'.port → u = u' ∧ device = device') ∧
    -- what a login was answered is what is answered later
    (∀ v out, (v, out) ∈ log → v.IsLogin → ∃ port device,
      out = [(v.clientAddr, ⟨true, port, device⟩)] ∧
      ∀ w : Visit, w.hand.userid = v.hand.userid → w.hand.device = device →
        s.Answers w [(w.clientAddr, ⟨true, port, device⟩)]) ∧
    -- nobody else is concerned by a handshake
    (∀ (w : Visit) u, u ≠ w.hand.userid → (leaves w s).logins.entry u = s.logins.entry u) ∧
    -- and a device that was not handed out is refused
    (∀ w : Visit, w.hand.device ≠ 0 → w.hand.device.toNat ≤ maxConcurrentDev →
      (∀ v out, (v, out) ∈ log → v.IsLogin → v.hand.userid = w.hand.userid →
        ∀ a port, out ≠ [(a, ⟨true, port, w.hand.device⟩)]) →
      s.Answers w [(w.clientAddr, refusal)]) := by
  obtain ⟨n, h⟩ := hr.session hp
  refine ⟨fun u ↦ ⟨?_, h.loggedIn_iff u⟩, ?_, ?_, fun w u hu ↦ entry_leaves_of_ne h.unlocked hu, ?_⟩
  · rw [← Devices.length_slots (s.logins.entry u)]
    exact (h.devices u).le
  · intro u device c hc
    obtain ⟨i, rfl, hslot⟩ := loggedIn_iff.mp hc
    have hrange := h.range u i c hslot
    have hn := h.ports.le
    rw [h.length] at hn
    refine ⟨hrange.1, by omega, fun u' device' c' hc' hport ↦ ?_⟩
    obtain ⟨i', rfl, hslot'⟩ := loggedIn_iff.mp hc'
    obtain ⟨rfl, rfl⟩ := h.distinct u i c u' i' c' hslot hslot' hport
    exact ⟨rfl, rfl⟩
  · intro v out hmem hlogin
    obtain ⟨i, c, hc, hout⟩ := h.granted v out hmem hlogin
    refine ⟨c.port, .ofNat (i + 1), hout, fun w hu hdevice ↦ ?_⟩
    rw [← hu] at hc
    exact hdevice ▸ h.answers hc hdevice
  · intro w hne hle hnone
    refine answers_refusal hne hle fun i c hdevice hc ↦ ?_
    obtain ⟨v, out, hmem, hlogin, hu, hout⟩ := h.handedOut _ i c hc
    exact hnone v out hmem hlogin hu v.clientAddr c.port (hdevice ▸ hout)

/-- A login of a user. -/
def loginOf (u : Name) : Visit := { hand := { reqType := .login, userid := u }, clientAddr := {} }

/-- The server after two users have logged in. -/
def twoUsers : Server := ((start 65530).welcome (loginOf ['a']) 0).welcome (loginOf ['b']) 0

/-- Two users log in, and each gets its first device and a port. -/
theorem run_two_logins : Run 65530
    [(loginOf ['a'], [({}, ⟨true, 65532, 1⟩)]), (loginOf ['b'], [({}, ⟨true, 65533, 1⟩)])]
    twoUsers := by
  have hfirst : (loginOf ['a']).treat.run (start 65530) = _ :=
    treat_admitted ⟨rfl, rfl⟩ (fun _ ↦ rfl) rfl rfl
  have hsecond : (loginOf ['b']).treat.run ((start 65530).welcome (loginOf ['a']) 0) = _ :=
    treat_admitted ⟨rfl, rfl⟩ (fun _ ↦ rfl) rfl rfl
  have hone : Run 65530 [(loginOf ['a'], [({}, ⟨true, 65532, 1⟩)])]
      ((start 65530).welcome (loginOf ['a']) 0) := by
    refine .step .start ⟨by decide, fun _ ↦ ⟨⟨{}, by decide, rfl⟩, by decide, rfl⟩⟩ hfirst ?_
    rw [Answers, leaves_ok hfirst]
    rfl
  refine hone.step ⟨by decide, fun _ ↦ ⟨⟨{}, by decide, rfl⟩, by decide, rfl⟩⟩ hsecond ?_
  rw [Answers, leaves_ok hsecond]
  rfl

/-- A later handshake of the first user. -/
def returning : Visit where
  hand := { reqType := .sync, userid := ['a'], device := 1 }
  clientAddr := {}

/-- After two logins the first user comes back, and is answered with its own port; the second
device of the other user is refused. -/
theorem two_logins_served : twoUsers.Answers returning [({}, ⟨true, 65532, 1⟩)] ∧
    ¬ ∃ c, twoUsers.LoggedIn ['b'] 2 c := by
  obtain ⟨hdevices, -, hlater, -⟩ := session_table (by decide) run_two_logins
  constructor
  · obtain ⟨port, device, hout, hans⟩ := hlater _ _ List.mem_cons_self ⟨rfl, rfl⟩
    cases hout
    exact hans returning rfl rfl
  · rw [(hdevices ['b']).2 2]
    decide

end Server
end Bropdox
