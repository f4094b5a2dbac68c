import Bropdox.FileSystem.Subtree
import Bropdox.RequestHandler
import Bropdox.Session.Unwinding
import Bropdox.UserDirs

/-!
# One user cannot get at the files of another

The names in the datagrams of a client are put behind the directory of its user by four functions,
each by a rule of its own, and none of them looks for `..`; `read_file` does not even put an
absolute name behind it.  So a handler reads and removes what it is asked to, and this file says for
which names that is nobody else's business.

## What is here

* `Houses` says where the sync directory of a host is, and `Agree` that two hosts agree on it.
* `FileHost.Confines` says of a path string that it leads through the directory and through nothing
  else, and `FileOp.Confined` that the strings which an operation makes of its names do.
* `preserves_outside`: a confined operation changes nothing outside the directory.
  `unwinds_confined`: it comes to the same on two hosts that have the same directory, so its result
  does not depend on anything else either.
* `Handles` is what a handler does from the first datagram on, and `Isolated` the property of it:
  everything outside the directory is left alone, and cannot be told apart.
* `isolated_of_confined`: a handler is isolated in every run whose file operations are confined.
* `removal_isolated` and `other_user_reached` are the removal of a file of the user, and the removal
  of a file of somebody else by a name with `..` in it.

The method is that of unwinding (`Session/Unwinding.lean`): a step that two hosts cannot tell apart
leaves them so, and by induction a run does.
-/

set_option autoImplicit false

namespace Bropdox

open FileSystem Session

/-- The sync directory of a host is at `p`, or was there: a client may have asked for the directory
itself to be removed. -/
structure Houses (h : FileHost) (p : Path) : Prop where
  /-- The path string of the directory ends in a separator. -/
  trailing : ∃ s, h.syncDir = s ++ ['/']
  /-- The name of the sync directory goes down to the directory without detour. -/
  direct : h.machine.disk.Visits (· <+: p)
    (if isAbsolute h.syncDir then [] else h.machine.cwd) (h.syncDir.splitOn '/')
  /-- The name of the sync directory leads to `p` as long as there is a directory, and nowhere else.
  -/
  resolves : h.machine.resolve h.syncDir = if h.machine.disk.isDir p then some p else none
  /-- The entries below the directory have names. -/
  names : ∀ q ∈ h.machine.entriesBelow p, ∃ r c, q = r ++ [c] ∧ Plain c

/-- Two hosts that agree on the directory `p`. -/
structure Agree (p : Path) (h h' : FileHost) : Prop where
  /-- The settings are the same. -/
  settings : h.SameSettings h'
  /-- The directory is the same. -/
  below : Machine.SameBelow p h.machine h'.machine

/-- A path string leads through the directory `p` and through nothing else. -/
def FileHost.Confines (h : FileHost) (p : Path) (s : Name) : Prop :=
  ∃ name, s = h.syncDir ++ name ∧ h.machine.disk.Visits (p <+: ·) p (name.splitOn '/')

/-- The path strings that an operation makes of its names lead through the directory `p`, and
through nothing else, and no packet that is written is overfull.  The server never copies. -/
def FileOp.Confined (p : Path) (h : FileHost) : FileOp → Prop
  | writeFile fileName fileData path => h.Confines p (h.writePath fileName path) ∧
      ∀ packet, some packet ∈ fileData → packet.dataSize.toNat ≤ packetSize
  | readFile fileName => h.Confines p (h.readPath fileName)
  | getFileInfo fileName => h.Confines p (h.syncDir ++ soughtName fileName)
  | checkFreshness file => h.Confines p (h.syncDir ++ soughtName file.name)
  | getFileInfoList => True
  | deleteFile fileName => h.Confines p (h.syncDir ++ fileName)
  | copyFileToSyncDir _ => False

section Directory

variable {h h' s : FileHost} {p q : Path} {t : Name}

theorem Agree.symm (ha : Agree p h h') : Agree p h' h :=
  ⟨⟨ha.settings.reported.symm, ha.settings.syncDir.symm⟩, ha.below.symm⟩

namespace Houses

/-- Below the directory a name is followed from there. -/
theorem resolve (hh : Houses h p) (name : Name) :
    h.machine.resolve (h.syncDir ++ name) = h.machine.disk.walk p (name.splitOn '/') := by
  obtain ⟨s, hs⟩ := hh.trailing
  have hr := hh.resolves
  rw [hs] at hr ⊢
  rw [List.append_assoc, List.singleton_append, Machine.resolve_behind_slash, hr]
  cases hp : h.machine.disk.isDir p with
  | true => rfl
  | false => exact (Machine.walk_splitOn_of_not_isDir hp name).symm

/-- A name leads somewhere only as long as there is a directory. -/
theorem isDir_of_resolve (hh : Houses h p) {name : Name}
    (hq : h.machine.resolve (h.syncDir ++ name) = some q) : h.machine.disk.isDir p = true := by
  by_contra hp
  rw [hh.resolve, Machine.walk_splitOn_of_not_isDir (Bool.eq_false_iff.mpr hp)] at hq
  cases hq

/-- What leaves the directories on the way alone, and makes none where the directory was, leaves the
directory where it is or takes it away. -/
theorem of_isDir (hh : Houses h p) {m : Machine} (hcwd : m.cwd = h.machine.cwd)
    (hway : ∀ q, q <+: p → q ≠ p → m.disk.isDir q = h.machine.disk.isDir q)
    (hself : m.disk.isDir p = true → h.machine.disk.isDir p = true)
    (hnames : ∀ q ∈ m.entriesBelow p, ∃ r c, q = r ++ [c] ∧ Plain c) :
    Houses { h with machine := m } p := by
  have hanti : ∀ q, q <+: p → m.disk.isDir q = true → h.machine.disk.isDir q = true := by
    intro q hq hdir
    by_cases he : q = p
    · exact he ▸ hself (he ▸ hdir)
    · exact hway q hq he ▸ hdir
  refine ⟨hh.trailing, ?_, ?_, hnames⟩
  · simp only [hcwd]
    exact hh.direct.anti hanti
  · obtain ⟨s, hs⟩ := hh.trailing
    have hr := hh.resolves
    have hnil : h.syncDir ≠ [] := by simp [hs]
    rw [Machine.resolve, if_neg hnil] at hr
    simp only [Machine.resolve, if_neg hnil, hcwd]
    cases hp : m.disk.isDir p with
    | true =>
      -- nothing has changed on the way
      have hsame : ∀ q, q <+: p → m.disk.isDir q = h.machine.disk.isDir q := by
        intro q hq
        by_cases he : q = p
        · rw [he, hp, hself hp]
        · exact hway q hq he
      rw [hh.direct.walk_eq hsame, hr, hself hp]
    | false =>
      rw [if_neg Bool.false_ne_true, Option.eq_none_iff_forall_ne_some]
      intro q hq
      have hq' := hh.direct.walk_anti hanti hq
      rw [hr] at hq'
      split at hq'
      · -- one would stand on a directory at the end
        obtain rfl := Option.some.inj hq'
        have hres : m.resolve (s ++ ['/']) = some p := by
          rw [Machine.resolve, if_neg (by simp), ← hs, hcwd]
          exact hq
        rw [(Machine.resolve_trailing hres).1] at hp
        cases hp
      · cases hq'

end Houses

/-- A confined string leads to a place below the directory. -/
theorem FileHost.Confines.leads (hc : h.Confines p t) (hh : Houses h p)
    (hq : h.machine.resolve t = some q) : ∃ r, q = p ++ r ∧ ∀ c ∈ r, Plain c := by
  obtain ⟨name, rfl, hv⟩ := hc
  rw [hh.resolve] at hq
  exact hv.plain_of_walk (fun _ ↦ noSlash_of_mem_splitOn) (List.append_nil p).symm
    (List.forall_mem_nil _) hq

theorem FileHost.Confines.inside (hc : h.Confines p t) (hh : Houses h p)
    (hq : h.machine.resolve t = some q) : p <+: q := by
  obtain ⟨r, rfl, -⟩ := hc.leads hh hq
  exact List.prefix_append ..

/-- A string that is confined on one host is confined on every host that agrees on the directory. -/
theorem FileHost.Confines.congr (hc : h.Confines p t) (ha : Agree p h h') : h'.Confines p t := by
  obtain ⟨name, rfl, hv⟩ := hc
  exact ⟨name, by rw [ha.settings.syncDir], hv.congr fun q hq ↦ ha.below.isDir hq⟩

/-- A confined string leads to the same place on two hosts that agree on the directory. -/
theorem FileHost.Confines.resolve_eq (hc : h.Confines p t) (hh : Houses h p) (hh' : Houses h' p)
    (ha : Agree p h h') : h'.machine.resolve t = h.machine.resolve t := by
  obtain ⟨name, rfl, hv⟩ := hc
  rw [hh.resolve, ← ha.settings.syncDir, hh'.resolve]
  exact hv.walk_eq fun q hq ↦ ha.below.isDir hq

/-- A file is written below the directory, under a plain name, or nothing happens. -/
theorem FileHost.Confines.write_cases (hc : h.Confines p t) (hh : Houses h p)
    (bytes : List UInt8) :
    h.machine.write t bytes = h.machine ∨
      ∃ r f c, Plain f ∧ h.machine.disk.isDir (p ++ r ++ [f]) = false ∧
        h.machine.write t bytes = h.machine.put (p ++ r ++ [f]) c := by
  rw [Machine.write]
  cases hq : h.machine.resolve t with
  | none => exact .inl rfl
  | some q =>
    obtain ⟨r, rfl, hr⟩ := hc.leads hh hq
    by_cases hdir : h.machine.disk.isDir (p ++ r) = true
    · left
      simp [hdir]
    rw [Bool.not_eq_true] at hdir
    simp only [hdir, Bool.false_eq_true, if_false]
    split
    · rcases List.eq_nil_or_concat r with rfl | ⟨r, f, rfl⟩
      · obtain ⟨name, rfl, -⟩ := hc
        rw [List.append_nil, hh.isDir_of_resolve hq] at hdir
        cases hdir
      · rw [List.concat_eq_append, ← List.append_assoc] at hdir ⊢
        exact .inr ⟨r, f, _, hr f (by simp), hdir, rfl⟩
    · exact .inl rfl

/-- What is removed through a confined string is the directory or something below it. -/
theorem FileHost.Confines.remove_cases (hc : h.Confines p t) (hh : Houses h p) {m : Machine}
    (hm : h.machine.remove t = some m) :
    m = h.machine ∨ ∃ q, p <+: q ∧ m = { h.machine with disk := h.machine.disk.erase q } := by
  rcases Machine.remove_cases hm with hsame | ⟨q, hq, herase⟩
  · exact .inl hsame
  · exact .inr ⟨q, hc.inside hh hq, herase⟩

/-- Everything but the directory is as it was. -/
def SameOutside (p : Path) (h s : FileHost) : Prop :=
  ∀ q, ¬ p <+: q → s.machine.disk.at? q = h.machine.disk.at? q

/-- Writing through a confined string changes nothing else, and leaves the directory in place. -/
theorem FileHost.Confines.write (hc : h.Confines p t) (hh : Houses h p) (bytes : List UInt8) :
    Houses { h with machine := h.machine.write t bytes } p ∧
      SameOutside p h { h with machine := h.machine.write t bytes } := by
  rcases hc.write_cases hh bytes with hsame | ⟨r, f, c, hf, hdir, hput⟩
  · rw [hsame]
    exact ⟨hh, fun _ _ ↦ rfl⟩
  · rw [hput]
    have hbelow : p <+: p ++ r ++ [f] := ⟨r ++ [f], (List.append_assoc ..).symm⟩
    have hsame := fun q ↦ Disk.isDir_set_file hdir ⟨c, h.machine.clock 0⟩ q
    refine ⟨hh.of_isDir rfl (fun q _ _ ↦ hsame q) (fun hp ↦ hsame p ▸ hp) fun q hq ↦ ?_,
      fun q hq ↦ Disk.at?_set_of_ne _ _ fun he ↦ hq (he ▸ hbelow)⟩
    have hentry : q = p ++ r ++ [f] ∨ q ∈ h.machine.entriesBelow p := by
      rw [Machine.entriesBelow_put] at hq
      split at hq
      · exact (List.mem_cons.mp hq).imp_right List.mem_of_mem_filter
      · exact .inr (List.mem_of_mem_filter hq)
    rcases hentry with rfl | hq
    · exact ⟨_, f, rfl, hf⟩
    · exact hh.names q hq

/-- Removing through a confined string changes nothing else, and leaves the directory in place or
removes it. -/
theorem FileHost.Confines.remove (hc : h.Confines p t) (hh : Houses h p) {m : Machine}
    (hm : h.machine.remove t = some m) :
    Houses { h with machine := m } p ∧ SameOutside p h { h with machine := m } := by
  rcases hc.remove_cases hh hm with rfl | ⟨q, hq, rfl⟩
  · exact ⟨hh, fun _ _ ↦ rfl⟩
  · refine ⟨hh.of_isDir rfl (fun b hb hne ↦ Disk.isDir_congr (Disk.at?_erase_of_ne _ ?_))
      Disk.isDir_of_erase fun b hb ↦ ?_, fun b hb ↦ Disk.at?_erase_of_ne _ fun he ↦ hb (he ▸ hq)⟩
    · rintro rfl
      exact hne (hb.eq_of_length_le hq.length_le)
    · rw [Machine.entriesBelow_erase] at hb
      exact hh.names b (List.mem_of_mem_filter hb)

end Directory

/-! ## The operations

Each file operation by the path strings that it makes, and what is written through a confined
one. -/

section Operations

variable {h h' s : FileHost} {p : Path} {o : FileOp}

/-- **A confined operation changes nothing else.** -/
theorem preserves_outside (h : FileHost) (p : Path) :
    RequestHandler.sig.Preserves (fun s ↦ Houses s p ∧ SameOutside p h s)
      (fun s o ↦ o.Confined p s) := by
  rintro s o v s' ⟨hh, hout⟩ hc hx
  have hnext {s' : FileHost} (hs : Houses s' p ∧ SameOutside p s s') :
      Houses s' p ∧ SameOutside p h s' :=
    ⟨hs.1, fun q hq ↦ (hs.2 q hq).trans (hout q hq)⟩
  rcases FileOp.exec_cases hx with
    rfl | ⟨f, data, path, bytes, rfl, rfl⟩ | ⟨f, m, rfl, hm, rfl⟩ | ⟨f, rfl⟩
  · exact ⟨hh, hout⟩
  · exact hnext (FileHost.Confines.write hc.1 hh bytes)
  · exact hnext (FileHost.Confines.remove hc hh hm)
  · cases hc

/-- Two hosts that have the same directory. -/
structure Alike (p : Path) (h h' : FileHost) : Prop where
  /-- The directory of the left host is where it is said to be. -/
  left : Houses h p
  /-- On the other host as well. -/
  right : Houses h' p
  /-- The hosts agree on it. -/
  agree : Agree p h h'

theorem Alike.symm (ha : Alike p h h') : Alike p h' h := ⟨ha.right, ha.left, ha.agree.symm⟩

/-- A plain name is confined. -/
theorem FileHost.confines_plain {f : Name} (hf : Plain f) : h.Confines p (h.syncDir ++ f) := by
  refine ⟨f, rfl, ?_⟩
  rw [splitOn_plain hf.noSlash]
  refine ⟨List.prefix_refl p, fun _ ↦ ?_⟩
  rw [hf.stepTo]
  exact List.prefix_append ..

/-- Loops that do the same come to the same. -/
theorem mapM_congr {γ δ : Type} {f g : γ → Except Exn δ} {es : List γ}
    (hall : ∀ e ∈ es, f e = g e) : es.mapM f = es.mapM g := by
  induction es with
  | nil => rfl
  | cons e es ih =>
    rw [List.mapM_cons, List.mapM_cons, hall e List.mem_cons_self,
      ih fun e' he' ↦ hall e' (List.mem_cons_of_mem _ he')]

/-- What is written of packets that are not overfull does not depend on the memory beyond them. -/
theorem flatMap_written_eq (beyond beyond' : Packet → Nat → UInt8) {packets : List Packet}
    (hle : ∀ packet ∈ packets, packet.dataSize.toNat ≤ packetSize) :
    packets.flatMap (Packet.written beyond') = packets.flatMap (Packet.written beyond) := by
  refine List.flatMap_congr fun packet hp ↦ ?_
  rw [Packet.written_of_le _ (hle packet hp), Packet.written_of_le _ (hle packet hp)]

namespace Alike

variable {t n : Name} {file : FileInfo} (ha : Alike p h h')
include ha

theorem exists_eq (hc : h.Confines p t) : h'.machine.exists t = h.machine.exists t :=
  ha.agree.below.exists_eq (hc.resolve_eq ha.left ha.right ha.agree) fun _ ↦ hc.inside ha.left

theorem stat_eq (hc : h.Confines p t) : h'.machine.stat t = h.machine.stat t :=
  ha.agree.below.stat_eq (hc.resolve_eq ha.left ha.right ha.agree) fun _ ↦ hc.inside ha.left

theorem syncDir_eq : h'.syncDir = h.syncDir := ha.agree.settings.syncDir

theorem fileInfo_eq (hc : h.Confines p (h.syncDir ++ n)) :
    fileInfo h'.machine n h'.syncDir = fileInfo h.machine n h.syncDir := by
  rw [fileInfo, fileInfo, ha.syncDir_eq, ha.exists_eq hc, ha.stat_eq hc]

theorem readFile_eq (hc : h.Confines p (h.readPath n)) : h'.readFile n = h.readFile n := by
  have hpath : h'.readPath n = h.readPath n := by
    rw [FileHost.readPath, FileHost.readPath, ha.syncDir_eq]
  rw [FileHost.readFile, FileHost.readFile, hpath, ha.exists_eq hc, ha.stat_eq hc,
    ha.agree.settings.reported]

theorem getFileInfo_eq (hc : h.Confines p (h.syncDir ++ soughtName n)) :
    h'.getFileInfo n = h.getFileInfo n :=
  ha.fileInfo_eq hc

theorem checkFreshness_eq (hc : h.Confines p (h.syncDir ++ soughtName file.name)) :
    h'.checkFreshness file = h.checkFreshness file := by
  rw [FileHost.checkFreshness, FileHost.checkFreshness, ha.getFileInfo_eq hc]

theorem getFileInfoList_eq : h'.getFileInfoList = h.getFileInfoList := by
  have hdir : h'.machine.disk.isDir p = h.machine.disk.isDir p :=
    ha.agree.below.isDir (List.prefix_refl p)
  rw [FileHost.getFileInfoList, FileHost.getFileInfoList, Machine.listRecursive,
    Machine.listRecursive, ha.left.resolves, ha.right.resolves, hdir]
  cases hp : h.machine.disk.isDir p with
  | false => rfl
  | true =>
    simp only [if_true, hp, hdir, ha.agree.below.order, ha.agree.below.entries]
    refine mapM_congr fun q hq ↦ ?_
    obtain ⟨r, c, rfl, hplain⟩ := ha.left.names q ((h.machine.order.perm _).mem_iff.mp hq)
    rw [FileHost.listEntry, FileHost.listEntry, List.getLast?_concat, Option.getD_some,
      ha.fileInfo_eq (FileHost.confines_plain hplain)]

/-- The same is written on both hosts. -/
theorem write (hc : h.Confines p t) (bytes : List UInt8) :
    Alike p { h with machine := h.machine.write t bytes }
      { h' with machine := h'.machine.write t bytes } where
  left := (hc.write ha.left bytes).1
  right := ((hc.congr ha.agree).write ha.right bytes).1
  agree := ⟨⟨ha.agree.settings.reported, ha.syncDir_eq⟩, ha.agree.below.write
    (hc.resolve_eq ha.left ha.right ha.agree) (fun _ ↦ hc.inside ha.left) bytes⟩

/-- What is removed on one is removed on both. -/
theorem remove (hc : h.Confines p t) :
    (h.machine.remove t = none ∧ h'.machine.remove t = none) ∨
      ∃ m m', h.machine.remove t = some m ∧ h'.machine.remove t = some m' ∧
        Alike p { h with machine := m } { h' with machine := m' } := by
  rcases ha.agree.below.remove (hc.resolve_eq ha.left ha.right ha.agree)
    (fun _ ↦ hc.inside ha.left) with hnone | ⟨m, m', hm, hm', hbelow⟩
  · exact .inl hnone
  · exact .inr ⟨m, m', hm, hm', (hc.remove ha.left hm).1,
      ((hc.congr ha.agree).remove ha.right hm').1,
      ⟨ha.agree.settings.reported, ha.syncDir_eq⟩, hbelow⟩

end Alike

/-- **A confined operation comes to the same on two hosts that have the same directory.** -/
theorem unwinds_confined (p : Path) :
    RequestHandler.sig.Unwinds (Alike p) (fun s o ↦ o.Confined p s) := by
  intro h h' o ha hc
  have hlook {γ : Type} {x x' : Except Exn γ} (hx : x' = x) :
      (∃ v s s', x.map (·, h) = .ok (v, s) ∧ x'.map (·, h') = .ok (v, s') ∧ Alike p s s') ∨
        ∃ e, x.map (·, h) = .error e ∧ x'.map (·, h') = .error e := by
    subst hx
    cases x' with
    | error e => exact .inr ⟨e, rfl, rfl⟩
    | ok v => exact .inl ⟨v, h, h', rfl, rfl, ha⟩
  cases o with
  | writeFile f data path =>
    have hpath : h'.writePath f path = h.writePath f path := by
      rw [FileHost.writePath, FileHost.writePath, ha.syncDir_eq]
    have hbytes : (data.filterMap id).flatMap (Packet.written h'.beyond) =
        (data.filterMap id).flatMap (Packet.written h.beyond) :=
      flatMap_written_eq _ _ fun packet hp ↦ hc.2 packet (by simpa using hp)
    simp only [FileOp.exec, FileHost.writeFile, hpath, hbytes]
    split
    · exact .inl ⟨true, _, _, rfl, rfl, ha.write hc.1 _⟩
    · exact .inr ⟨_, rfl, rfl⟩
  | readFile f => exact hlook (ha.readFile_eq hc)
  | getFileInfo f => exact hlook (ha.getFileInfo_eq hc)
  | checkFreshness file => exact hlook (ha.checkFreshness_eq hc)
  | getFileInfoList => exact hlook ha.getFileInfoList_eq
  | deleteFile f =>
    have hex : h'.machine.exists (h'.syncDir ++ f) = h.machine.exists (h.syncDir ++ f) := by
      rw [ha.syncDir_eq, ha.exists_eq hc]
    simp only [FileOp.exec, FileHost.deleteFile, hex]
    split
    · rcases ha.remove hc with ⟨hm, hm'⟩ | ⟨m, m', hm, hm', halike⟩ <;>
        rw [← ha.syncDir_eq] at hm'
      · simp only [hm, hm']
        exact .inr ⟨_, rfl, rfl⟩
      · simp only [hm, hm']
        exact .inl ⟨true, _, _, rfl, rfl, halike⟩
    · exact .inl ⟨false, _, _, rfl, rfl, ha⟩
  | copyFileToSyncDir f => cases hc

end Operations

/-! ## The handler

The two halves of isolation, lifted from the operations to the runs of a handler. -/

/-- What a handler does, from the first datagram on: `i` is all that its client will have sent, and
`read` is what the handler makes of it. -/
abbrev Handles (read : Reading sessionWire) (request : Req) (i : Inbox sessionWire) (h : FileHost)
    (evs : List (Session.Event sessionWire)) (e : Endpoint sessionWire RequestHandler.sig Bool)
    (i' : Inbox sessionWire) : Prop :=
  Endpoint.Run read RequestHandler.body ⟨h, RequestHandler.handleRequest request⟩ i evs e i'

/-- Whatever its client sends, a handler leaves everything but the directory alone; and on hosts
that have the same directory it reads and sends the same, and leaves the same directory. -/
structure Isolated (read : Reading sessionWire) (request : Req) (i : Inbox sessionWire) (p : Path)
    (h : FileHost) : Prop where
  /-- Nothing else is changed. -/
  outside : ∀ evs e i', Handles read request i h evs e i' → SameOutside p h e.host
  /-- What the handler does on the one host it does on the other. -/
  there : ∀ h', Houses h' p → Agree p h h' → ∀ evs e i', Handles read request i h evs e i' →
    ∃ s, Handles read request i h' evs ⟨s, e.prog⟩ i' ∧ Agree p e.host s
  /-- What the handler does on the other host it does on the one. -/
  here : ∀ h', Houses h' p → Agree p h h' → ∀ evs e i', Handles read request i h' evs e i' →
    ∃ s, Handles read request i h evs ⟨s, e.prog⟩ i' ∧ Agree p s e.host

/-- **A handler is isolated in every run whose file operations are confined.** -/
theorem isolated_of_confined {read : Reading sessionWire} {request : Req}
    {i : Inbox sessionWire} {p : Path} {h : FileHost} (hh : Houses h p)
    (hk : Endpoint.Keeps read RequestHandler.body (fun s o ↦ o.Confined p s)
      ⟨h, RequestHandler.handleRequest request⟩ i) : Isolated read request i p h where
  outside _ _ _ hr := (hr.preserves (preserves_outside h p) hk ⟨hh, fun _ _ ↦ rfl⟩).2
  there _ hh' ha _ _ _ hr := by
    obtain ⟨s, hs, hsame⟩ := hr.unwind (unwinds_confined p) hk ⟨hh, hh', ha⟩
    exact ⟨s, hs, hsame.agree⟩
  here _ hh' ha _ _ _ hr := by
    obtain ⟨s, hs, hsame⟩ := hr.unwind_back (unwinds_confined p) hk rfl ⟨hh, hh', ha⟩
    exact ⟨s, hs, hsame.agree⟩

/-! ## The handler of a user

The file handler that the server makes for a user, and two runs of it. -/

/-- The file handler that a request handler makes for a user. -/
def userHost (m : Machine) (u : Name) : FileHost where
  machine := m
  syncDir := userDir u ++ ['/']

/-- The files of a user are in the directory of that user. -/
theorem houses_userHost {m : Machine} {u : Name} (hu : UserId u)
    (hcwd : m.disk.isDir m.cwd = true)
    (hnames : ∀ q ∈ m.entriesBelow (userPath m u), ∃ r c, q = r ++ [c] ∧ Plain c) :
    Houses (userHost m u) (userPath m u) where
  trailing := ⟨userDir u, rfl⟩
  direct := by
    have hsplit : (userHost m u).syncDir.splitOn '/' = [userDir u, []] := by
      rw [userHost, splitOn_slash, splitOn_plain hu.plain.noSlash]
      rfl
    have habs : isAbsolute (userHost m u).syncDir = false := rfl
    rw [hsplit, habs]
    refine ⟨List.prefix_append .., fun _ ↦ ?_⟩
    rw [hu.plain.stepTo]
    exact ⟨List.prefix_refl _, fun _ ↦ List.prefix_refl _⟩
  resolves := Machine.resolve_here_slash hcwd hu.plain
  names := hnames

/-- A machine on which two users have a file each. -/
def twoUsers : Machine where
  disk := .ofList [([userDir ['u']], .dir), ([userDir ['u'], ['f']], .file ⟨.threeBytes, 1⟩),
    ([userDir ['v']], .dir), ([userDir ['v'], ['g']], .file ⟨.single 0, 1⟩)]
  cwd := []
  clock := Nat.cast
  order := .asStored

theorem houses_twoUsers : Houses (userHost twoUsers ['u']) [userDir ['u']] := by
  refine houses_userHost (by decide) rfl fun q hq ↦ ?_
  have hentries : twoUsers.entriesBelow (userPath twoUsers ['u']) = [[userDir ['u'], ['f']]] := by
    decide
  rw [hentries, List.mem_singleton] at hq
  exact ⟨[userDir ['u']], ['f'], hq, by decide⟩

/-- The datagram that asks for the removal of a file. -/
def removalOf (file : Name) : Parcel sessionWire := ((), ⟨Kind.fileData, ⟨⟨file, 0, 0⟩, 0⟩⟩)

/-- The handler of a removal, statement by statement. -/
theorem handleRequest_del : RequestHandler.handleRequest .del =
    (Program.await (W := sessionWire) .fileData).bind fun fileData ↦
      (Program.expect (P := RequestHandler.sig) Exn.nullPointer fileData).bind fun fileData ↦
        (RequestHandler.file (.deleteFile fileData.file.name)).bind fun deleted ↦
          (if !deleted then SocketHandler.sendPacket .ack ⟨false⟩
            else SocketHandler.sendPacket .ack ⟨true⟩).bind fun _ ↦ .ret true := by
  rw [RequestHandler.handleRequest]
  simp only [RequestHandler.waitFor, RequestHandler.deleteFile, Program.bind_eq,
    Program.bind_assoc]
  rfl

/-- A handler removes the file that it is asked to. -/
theorem handles_removal {h s : FileHost} {file : Name}
    (hdel : h.deleteFile file = .ok (true, s)) :
    Handles typed .del (some [removalOf file]) h
      [.got .fileData (removalOf file), .sent ((), ⟨Kind.ack, ⟨true⟩⟩)] ⟨s, .ret true⟩
      (some []) := by
  rw [Handles, handleRequest_del]
  refine .await (typed_self ..) ?_
  exact .operation (P := RequestHandler.sig) (o := .deleteFile file) hdel (.emit (.nil ..))

/-- A file of the user is removed, and that is nobody else's business. -/
theorem removal_isolated :
    Isolated typed .del (some [removalOf ['f']]) [userDir ['u']] (userHost twoUsers ['u']) := by
  refine isolated_of_confined houses_twoUsers ?_
  rw [handleRequest_del]
  refine Endpoint.keeps_await (typed_self ..) ?_
  obtain ⟨s, hdel⟩ : ∃ s, (userHost twoUsers ['u']).deleteFile ['f'] = .ok (true, s) := ⟨_, rfl⟩
  exact Endpoint.keeps_run (P := RequestHandler.sig) (o := .deleteFile ['f'])
    (FileHost.confines_plain (by decide)) hdel (Endpoint.keeps_emit (Endpoint.keeps_ret true))

/-- The file of another user is removed as well. -/
theorem other_user_reached :
    ¬ ∀ request i, Isolated typed request i [userDir ['u']] (userHost twoUsers ['u']) := by
  intro hall
  let file : Name := ['.', '.', '/'] ++ userDir ['v'] ++ ['/', 'g']
  have hdel : ∃ s, (userHost twoUsers ['u']).deleteFile file = .ok (true, s) ∧
      s.machine.disk.at? [userDir ['v'], ['g']] = none := ⟨_, rfl, rfl⟩
  obtain ⟨s, hdel, hgone⟩ := hdel
  have hsame := (hall .del _).outside _ _ _ (handles_removal hdel) [userDir ['v'], ['g']]
    (by decide)
  rw [hgone] at hsame
  cases hsame

end Bropdox
