import Bropdox.FileSystem.Beside
import Bropdox.Isolation
import Bropdox.NameRules

/-!
# Handlers that stay where they belong

A request handler does whatever its client asks for, but the clients of this repository ask for
little: `get_file_info` has taken the path off every name before the name is sent, and the server
takes it off the names of events.  So if the names that a client is given are decent ones, the
handler stays in the directory of its user.

## What is here

* `Tame` are the decent names, and `tameRule` is the rule of `NameRules.lean` that all names are
  decent and no packet claims more bytes than it has.
* `confined_of_served`: the operations of a handler that is given decent names are confined, in the
  sense of `Isolation.lean`.  A name may still be missing, or that of a file that is removed.
* `sameBeside_of_exec`: what is done below one directory is nothing to a directory beside it.
  `Alike.beside` puts this together with what two hosts have in common.
* `exec_withClock` and `step_withClock`: what a handler does depends on the clock only through the
  readings at which it writes, so that a handler with others beside it goes as it would alone, at
  the times at which it is its turn.

`Tenants.lean` uses all of this for many users on one machine.
-/

set_option autoImplicit false

namespace Bropdox

open FileSystem Session Program

open FileSystem.Machine (Beside SameBeside)

/-! ## Clocks

How much of the clock an operation can see. -/

/-- A host with another clock. -/
def FileHost.withClock (h : FileHost) (clock : Nat → Int) : FileHost :=
  { h with machine := h.machine.withClock clock }

section Clocks

variable {h s : FileHost}

theorem deleteFile_withClock (h : FileHost) (f : Name) (clock : Nat → Int) :
    (h.withClock clock).deleteFile f =
      (h.deleteFile f).map fun r ↦ (r.1, r.2.withClock clock) := by
  have hrem := h.machine.remove_withClock (h.syncDir ++ f) clock
  have hex : (h.machine.withClock clock).exists (h.syncDir ++ f) =
      h.machine.exists (h.syncDir ++ f) := rfl
  simp only [FileHost.deleteFile, FileHost.withClock, hrem, hex]
  split
  · cases h.machine.remove (h.syncDir ++ f) <;> rfl
  · rfl

/-- **On a clock that shows the right time when something is written, an operation goes as it
goes.** -/
theorem exec_withClock (h : FileHost) {o : FileOp} (hcopy : ∀ f, o ≠ .copyFileToSyncDir f) :
    (∃ (v : o.Res) (s : FileHost) (g : (Nat → Int) → Nat → Int), o.exec h = .ok (v, s) ∧
        ∀ clock, o.exec (h.withClock (g clock)) = .ok (v, s.withClock clock)) ∨
      ∃ e, o.exec h = .error e ∧ ∀ clock, o.exec (h.withClock clock) = .error e := by
  have hlook {γ : Type} (x : Except Exn γ) :
      (∃ (v : γ) (s : FileHost) (g : (Nat → Int) → Nat → Int), x.map (·, h) = .ok (v, s) ∧
          ∀ clock, x.map (·, h.withClock (g clock)) = .ok (v, s.withClock clock)) ∨
        ∃ e, x.map (·, h) = .error e ∧ ∀ clock, x.map (·, h.withClock clock) = .error e := by
    cases x with
    | error e => exact .inr ⟨e, rfl, fun _ ↦ rfl⟩
    | ok v => exact .inl ⟨v, h, id, rfl, fun _ ↦ rfl⟩
  cases o with
  | writeFile f data path =>
    obtain ⟨g, hg⟩ := h.machine.write_withClock (h.writePath f path)
      ((data.filterMap id).flatMap (Packet.written h.beyond))
    simp only [FileOp.exec, FileHost.writeFile]
    split
    · refine .inl ⟨_, _, g, rfl, fun clock ↦ ?_⟩
      exact congrArg (fun m ↦ Except.ok (true, ({ h with machine := m } : FileHost))) (hg clock)
    · exact .inr ⟨_, rfl, fun _ ↦ rfl⟩
  | readFile f => exact hlook (h.readFile f)
  | getFileInfo f => exact hlook (h.getFileInfo f)
  | checkFreshness file => exact hlook (h.checkFreshness file)
  | getFileInfoList => exact hlook h.getFileInfoList
  | deleteFile f =>
    simp only [FileOp.exec, deleteFile_withClock]
    cases h.deleteFile f with
    | error e => exact .inr ⟨e, rfl, fun _ ↦ rfl⟩
    | ok r => exact .inl ⟨r.1, r.2, id, rfl, fun _ ↦ rfl⟩
  | copyFileToSyncDir f => exact absurd rfl (hcopy f)

/-- **On such a clock every move of a handler goes as it goes.** -/
theorem step_withClock {p q : RequestHandler.Prog Bool} {i i' : Inbox sessionWire}
    {out : List (Parcel sessionWire)} (hcopy : ∀ f k, p ≠ .op (.copyFileToSyncDir f) k)
    (hs : Endpoint.step typed RequestHandler.body ⟨h, p⟩ i = some (⟨s, q⟩, i', out)) :
    ∃ g : (Nat → Int) → Nat → Int, ∀ clock,
      Endpoint.step typed RequestHandler.body ⟨h.withClock (g clock), p⟩ i =
        some (⟨s.withClock clock, q⟩, i', out) := by
  cases p with
  | ret a => cases hs
  | throw x => cases hs
  | op o k =>
    rcases exec_withClock h fun f hf ↦ hcopy f (hf ▸ k) (by subst hf; rfl) with
      ⟨v, s', g, hx, hg⟩ | ⟨e, hx, hg⟩
    · simp only [Endpoint.step, hx] at hs
      cases hs
      exact ⟨g, fun clock ↦ by simp only [Endpoint.step, hg]⟩
    · simp only [Endpoint.step, hx] at hs
      cases hs
      exact ⟨id, fun clock ↦ by simp only [Endpoint.step, id_eq, hg]⟩
  | send a d k =>
    cases hs
    exact ⟨id, fun _ ↦ rfl⟩
  | close k =>
    cases hs
    exact ⟨id, fun _ ↦ rfl⟩
  | call l k =>
    cases hs
    exact ⟨id, fun _ ↦ rfl⟩
  | wait κ k =>
    cases i with
    | none => cases hs
    | some ps =>
      cases ps with
      | nil => cases hs
      | cons d ps =>
        obtain ⟨m, hm, he⟩ := Option.map_eq_some_iff.mp hs
        cases he
        refine ⟨id, fun clock ↦ ?_⟩
        rw [Endpoint.step, hm]
        rfl

end Clocks

/-! ## Directories beside each other

What a handler does in its own directory, seen from another one. -/

section Beside

variable {h k s : FileHost} {p q : Path} {o : FileOp}

/-- **What is done below one directory is nothing to a directory beside it.** -/
theorem sameBeside_of_exec (hpq : Beside p q) (hh : Houses h p) (hc : o.Confined p h) {v : o.Res}
    (hx : o.exec h = .ok (v, s)) : SameBeside q h.machine s.machine := by
  rcases FileOp.exec_cases hx with
    rfl | ⟨f, data, path, bytes, rfl, rfl⟩ | ⟨f, m, rfl, hm, rfl⟩ | ⟨f, rfl⟩
  · exact .rfl' q _
  · rcases FileHost.Confines.write_cases hc.1 hh bytes with hsame | ⟨r, f, c, -, -, hput⟩
    · simp only [hsame]
      exact .rfl' q _
    · simp only [hput]
      exact hpq.put ⟨r ++ [f], (List.append_assoc ..).symm⟩ c
  · rcases FileHost.Confines.remove_cases hc hh hm with rfl | ⟨x, hpx, rfl⟩
    · exact .rfl' q _
    · exact hpq.erase hpx
  · cases hc

/-- The clock has nothing to do with where the directory is. -/
theorem Houses.withClock (hh : Houses h q) (clock : Nat → Int) : Houses (h.withClock clock) q :=
  hh.of_isDir rfl (fun _ _ _ ↦ rfl) id hh.names

/-- Two hosts that have the same directory still do, when something has happened beside it on one
and the other one shows the time that it is now. -/
theorem Alike.beside (ha : Alike q h k) {m : Machine} (hm : SameBeside q h.machine m) :
    Alike q { h with machine := m } (k.withClock m.clock) where
  left := by
    have hsame : ∀ r, r <+: q → m.disk.isDir r = h.machine.disk.isDir r := fun r hr ↦
      Disk.isDir_congr (hm.node r (.inl hr))
    exact ha.left.of_isDir hm.cwd (fun r hr _ ↦ hsame r hr)
      (fun hq ↦ hsame q (List.prefix_refl q) ▸ hq) fun r hr ↦ ha.left.names r (hm.entries ▸ hr)
  right := ha.right.withClock m.clock
  agree := by
    refine ⟨⟨ha.agree.settings.reported, ha.agree.settings.syncDir⟩,
      ha.agree.below.cwd.trans hm.cwd.symm, rfl, ha.agree.below.order.trans hm.order.symm,
      fun r hr ↦ ?_, ha.agree.below.entries.trans hm.entries.symm⟩
    exact (ha.agree.below.node r hr).trans (hm.node r (.inr hr)).symm

theorem Alike.refl (hh : Houses h q) : Alike q h h :=
  ⟨hh, hh, ⟨.refl h, rfl, rfl, rfl, fun _ _ ↦ rfl, rfl⟩⟩

/-- Hosts that agree on a directory have the same files there. -/
theorem Agree.view_eq (ha : Agree q h k) : k.view q = h.view q := by
  funext f
  rw [FileHost.view, FileHost.view, Machine.view, Machine.view,
    ha.below.node _ (List.prefix_append q [f])]

/-- The directory is as flat on one as on the other. -/
theorem Alike.flat (ha : Alike q h k) (hflat : FlatDir h.machine h.syncDir q) :
    FlatDir k.machine k.syncDir q where
  trailing := ha.syncDir_eq ▸ hflat.trailing
  ne_net := ha.syncDir_eq ▸ hflat.ne_net
  resolves := by
    rw [ha.right.resolves, ha.agree.below.isDir (List.prefix_refl q), hflat.isDir, if_pos rfl]
  flat r n hn hr := hflat.flat r n (ha.agree.below.node r hr ▸ hn) hr

/-- A move of a handler changes nothing about the memory of its host. -/
theorem beyond_of_step {p p' : RequestHandler.Prog Bool} {i i' : Inbox sessionWire}
    {out : List (Parcel sessionWire)}
    (hs : Endpoint.step typed RequestHandler.body ⟨h, p⟩ i = some (⟨s, p'⟩, i', out)) :
    s.beyond = h.beyond := by
  rcases Endpoint.host_of_step hs with hsame | ⟨o, k, v, -, hx⟩
  · exact congrArg _ hsame
  · rcases FileOp.exec_cases hx with
      hsame | ⟨_, _, _, _, -, rfl⟩ | ⟨_, _, -, -, rfl⟩ | ⟨f, rfl⟩
    · exact congrArg _ hsame
    · rfl
    · rfl
    · obtain rfl : (h.copyFileToSyncDir f).2 = s := congrArg Prod.snd (Except.ok.inj hx)
      rw [FileHost.copyFileToSyncDir]
      split <;> rfl

/-- A host that is like that of a user is that of a user, at the same time. -/
theorem Alike.eq_userHost {m : Machine} {u : Name} (ha : Alike q (userHost m u) h)
    (hb : h.beyond = (userHost m u).beyond) :
    h = userHost (h.machine.withClock m.clock) u := by
  obtain ⟨⟨disk, cwd, clock, order⟩, dir, reported, beyond⟩ := h
  obtain rfl : beyond = (userHost m u).beyond := hb
  obtain rfl : reported = countPackets := ha.agree.settings.reported
  obtain rfl : dir = (userHost m u).syncDir := ha.agree.settings.syncDir
  obtain rfl : clock = m.clock := ha.agree.below.clock
  rfl

end Beside

/-! ## Decent names

The rule for names, and what follows for the operations. -/

/-- A name that can be put behind the sync directory; messages that are about no file have none. -/
def Tame (f : Name) : Prop := f = [] ∨ Plain f

theorem Tame.soughtName {f : Name} (hf : Tame f) : soughtName f = f := by
  rcases hf with rfl | hf
  · rfl
  · exact soughtName_plain hf

/-- No packet of a file is overfull. -/
theorem le_of_mem_packetsOf {c : Contents} {packet : Packet} (hp : packet ∈ packetsOf c) :
    packet.dataSize.toNat ≤ packetSize := by
  obtain ⟨n, hn⟩ := List.mem_iff_getElem?.mp hp
  rw [getElem?_packetsOf] at hn
  split at hn
  · cases hn
    rw [UInt32.toNat_ofNat_of_lt' ((min_le_left ..).trans_lt (by decide))]
    exact min_le_left ..
  · cases hn

/-- Names that lead to files of the sync directory once the path is off, and packets that are not
overfull. -/
def tameRule : NameRule where
  name f := Tame (soughtName f)
  served := Tame
  data file := Tame file.name
  event file := Tame (soughtName file.name)
  packet p := p.dataSize.toNat ≤ packetSize
  name_of_data h := h.soughtName.symm ▸ h
  served_of_data h := h
  name_of_event h := h
  data_default := .inl rfl
  event_default := .inl rfl

section Tame

variable {h s : FileHost} {p : Path} {f : Name} {o : FileOp}

/-- A walk that goes nowhere. -/
theorem visits_nil (d : Disk) {cs : List Name} (hcs : d.Visits (p <+: ·) p cs) :
    d.Visits (p <+: ·) p ([] :: cs) := by
  refine ⟨List.prefix_refl p, fun _ ↦ ?_⟩
  rwa [Disk.stepTo, if_pos (.inl rfl)]

theorem confines_tame (hf : Tame f) : h.Confines p (h.syncDir ++ f) := by
  rcases hf with rfl | hf
  · exact ⟨[], rfl, visits_nil _ (List.prefix_refl p)⟩
  · exact FileHost.confines_plain hf

/-- A file is read by a path with one separator too many. -/
theorem confines_read (hf : Tame f) : h.Confines p (h.readPath f) := by
  obtain ⟨name, hname, hv⟩ := confines_tame (h := h) (p := p) hf
  obtain rfl := List.append_cancel_left hname
  have habs : isAbsolute f = false := by
    rcases hf with rfl | hf
    · rfl
    · exact hf.isAbsolute
  refine ⟨'/' :: f, ?_, ?_⟩
  · rw [FileHost.readPath, habs, if_neg Bool.false_ne_true, List.append_assoc,
      List.singleton_append]
  · rw [← List.nil_append ('/' :: f), splitOn_slash]
    exact visits_nil _ hv

theorem writePath_tame (hf : Tame f) : h.writePath f [] = h.syncDir ++ f :=
  FileHost.writePath_eq hf.soughtName

/-- **The operations of a handler that is given decent names are confined.** -/
theorem confined_of_served (ho : tameRule.Served o) : o.Confined p h := by
  cases o with
  | writeFile f data path =>
    obtain ⟨hf, rfl, hle⟩ := ho
    rw [FileOp.Confined, writePath_tame hf]
    exact ⟨confines_tame hf, hle⟩
  | readFile f => exact confines_read ho
  | getFileInfo f => exact confines_tame (ho.soughtName.symm ▸ ho)
  | checkFreshness file => exact confines_tame ho
  | getFileInfoList => trivial
  | deleteFile f => exact confines_tame ho
  | copyFileToSyncDir f => exact ho

/-- A listing has the names of the entries. -/
theorem tame_of_listed (hh : Houses h p) {entries : List FileData}
    (hlist : h.getFileInfoList = .ok entries) : ∀ e ∈ entries, Tame e.file.name := by
  rw [FileHost.getFileInfoList, Machine.listRecursive, hh.resolves] at hlist
  cases hp : h.machine.disk.isDir p with
  | false => simp [hp] at hlist
  | true =>
  simp only [hp, if_true] at hlist
  intro e he
  obtain ⟨q, hq, hentry⟩ := mem_of_mapM_ok hlist he
  obtain ⟨r, c, rfl, hc⟩ := hh.names q ((h.machine.order.perm _).mem_iff.mp hq)
  rw [FileHost.listEntry, List.getLast?_concat, Option.getD_some] at hentry
  cases hv : fileInfo h.machine c h.syncDir with
  | error x =>
    rw [hv] at hentry
    cases hentry
  | ok info =>
    rw [hv] at hentry
    cases hentry
    rw [fileInfo_name hv]
    exact .inr hc

theorem handler_tame (p : Path) (o : FileOp) (h : FileHost) (v : o.Res) (s : FileHost)
    (ho : tameRule.handlerCode.op o) (hh : Houses h p) (hx : o.exec h = .ok (v, s)) :
    tameRule.Returns o (.ok v) ∧ Houses s p := by
  refine ⟨?_, (preserves_outside h p h o v s ⟨hh, fun _ _ ↦ rfl⟩ (confined_of_served ho) hx).1⟩
  cases o with
  | readFile f =>
    obtain ⟨x, -, hpackets⟩ := FileHost.stat_of_readFile (look_eq_ok_iff.mp hx).1
    exact fun p hp ↦ le_of_mem_packetsOf (hpackets ▸ hp)
  | getFileInfo f =>
    have hinfo : h.getFileInfo f = .ok v := (look_eq_ok_iff.mp hx).1
    have hname := Household.getFileInfo_name hinfo
    exact (congrArg Tame (hname.trans ho.soughtName)).mpr ho
  | getFileInfoList => exact tame_of_listed hh (look_eq_ok_iff.mp hx).1
  | _ => trivial

theorem client_tame (o : FileOp) (h : FileHost) (v : o.Res) (s : FileHost)
    (ho : tameRule.clientCode.op (.file o)) (_ : True) (hx : o.exec h = .ok (v, s)) :
    tameRule.Returns o (.ok v) ∧ True := by
  refine ⟨?_, trivial⟩
  cases o with
  | readFile f =>
    obtain ⟨x, -, hpackets⟩ := FileHost.stat_of_readFile (look_eq_ok_iff.mp hx).1
    exact fun p hp ↦ le_of_mem_packetsOf (hpackets ▸ hp)
  | getFileInfo f =>
    have hinfo : h.getFileInfo f = .ok v := (look_eq_ok_iff.mp hx).1
    have hname := Household.getFileInfo_name hinfo
    exact (congrArg Tame hname).mpr ho
  | getFileInfoList => exact ho.elim
  | _ => trivial

/-- The next operation of such a handler is confined. -/
theorem NameRule.Kept.minds {I J : FileHost → Prop} {x : PeerPair Bool Bool}
    (hx : tameRule.Kept I J x) : Endpoint.Minds (fun s o ↦ o.Confined p s) (W := sessionWire)
      (P := RequestHandler.sig) ⟨h, x.right.prog⟩ := by
  intro o k hk
  have hright : (Program.op o k).Heeds tameRule.handlerCode RequestHandler.body := hk ▸ hx.right
  cases hright with
  | stop hfalse => exact hfalse.elim
  | op ho _ => exact confined_of_served ho

end Tame
end Bropdox
