import Bropdox.Images
import Bropdox.NameRules
import Bropdox.Naming

/-!
# What is sent fits

The names in the messages are copied into arrays of fixed size with `strcpy`, which asks nobody how
long they are.  This file says what keeps them short: the names on the disk are, which the file
system sees to, and those of a request, and then nothing that is sent or written makes a longer one.

## What is here

* `Storable` names are short enough for an array and have no character that ends it; the first
  section is about what the programs do with names, which is to cut them and to take components of
  them.
* `Machine.Representable` says of a machine that what is on its disk fits into the messages that
  tell of it, and `FileHost.Representable` says it of a file handler.
* `FileHost.Representable.exec`: what an operation returns fits, and what it writes can be sent
  again.
* `fittingRule` is the rule of `NameRules.lean` that the names fit, so that one induction over the
  programs is enough for both sides.
* `ReadsFitting` says of a reading that it makes nothing of a datagram but what fits, which is that
  all strings in it are terminated within their arrays.
* `sessions_never_overflow`: in every run of the request handler and of every client program, each
  message that is sent fits its `struct`, and what has been written to the disk is again as short.
* `listing_fits` is one run of a server that lists a file.

A datagram with a string that does not end within its array is excluded, since nobody looks for its
end.  The typed datagrams of this model rest on the result: what fits can be read as it was sent
(`Memory.lean`).
-/

set_option autoImplicit false

namespace Bropdox

open FileSystem Session Program SocketHandler

open Relation (ReflTransGen)

/-! ## Names and paths

Components, file names and paths are no longer than what they are taken from. -/

section Names

variable {n : Nat} {s t c : Name}

theorem Storable.sublist (hs : Storable n s) (h : t.Sublist s) : Storable n t :=
  ⟨h.length_le.trans_lt hs.1, fun c hc ↦ hs.2 c (h.subset hc)⟩

theorem storable_nil : Storable 510 [] := ⟨by decide, List.forall_mem_nil _⟩

theorem storable_singleton {b : Char} (hb : 0 < b.toNat ∧ b.toNat < 256) : Storable 510 [b] :=
  ⟨by simp, List.forall_mem_singleton.mpr hb⟩

/-- A component is part of the name. -/
theorem sublist_of_mem_splitOn (h : c ∈ s.splitOn '/') : c.Sublist s := by
  induction s generalizing c with
  | nil =>
    obtain rfl := List.mem_singleton.mp h
    exact .slnil
  | cons x s ih =>
    rw [List.splitOn_cons_eq_if_modifyHead] at h
    split at h
    · rcases List.mem_cons.mp h with rfl | h
      · exact List.nil_sublist _
      · exact (ih h).cons x
    · obtain ⟨d, ds, hds⟩ := List.exists_cons_of_ne_nil (List.splitOn_ne_nil '/' s)
      rw [hds] at h ih
      rcases List.mem_cons.mp h with rfl | h
      · exact (ih List.mem_cons_self).cons_cons x
      · exact (ih (List.mem_cons_of_mem _ h)).cons x

theorem Storable.of_mem_splitOn (hs : Storable n s) (h : c ∈ s.splitOn '/') : Storable n c :=
  hs.sublist (sublist_of_mem_splitOn h)

theorem storable_filename (hs : Storable 510 s) : Storable 510 (filename s) := by
  rw [filename]
  split
  · exact hs
  · split
    · split_ifs
      · exact storable_nil
      · exact storable_singleton (by decide)
      · exact storable_singleton (by decide)
    · rename_i c _ hc
      split
      · exact hs
      · exact hs.of_mem_splitOn (List.mem_of_getLast? hc)
    · exact storable_nil

/-- The last component of a name behind a separator. -/
theorem getLast?_splitOn_slash (s f : Name) :
    ((s ++ '/' :: f).splitOn '/').getLast? = (f.splitOn '/').getLast? := by
  rw [splitOn_slash, List.getLast?_append_of_ne_nil _ (List.splitOn_ne_nil '/' f)]

end Names

/-- All components of a path can be stored. -/
def StorablePath (p : Path) : Prop := ∀ c ∈ p, Storable 510 c

/-- Seconds that a `time_t` can hold. -/
def TimeFits (t : Int) : Prop := -2 ^ 63 ≤ t ∧ t < 2 ^ 63

theorem walk_concat {d : Disk} {cur q : Path} {cs : List Name} {c : Name}
    (h : d.walk cur (cs ++ [c]) = some q) : ∃ x, d.isDir x = true ∧ q = Disk.stepTo x c := by
  rw [Disk.walk_append] at h
  obtain ⟨x, -, hx⟩ := Option.bind_eq_some_iff.mp h
  rw [Disk.walk] at hx
  split at hx
  · rename_i hd
    exact ⟨x, hd, (Option.some_inj.mp hx).symm⟩
  · cases hx

theorem StorablePath.stepTo {x : Path} (hx : StorablePath x) {c : Name} (hc : Storable 510 c) :
    StorablePath (Disk.stepTo x c) := by
  rw [Disk.stepTo]
  split_ifs
  · exact hx
  · exact fun b hb ↦ hx b (List.mem_of_mem_dropLast hb)
  · exact List.forall_mem_append.mpr ⟨hx, List.forall_mem_singleton.mpr hc⟩

/-! ## Machines

What is on a disk, and what will be written to it. -/

/-- What is on the disk fits into the messages that tell of it, and so will what is written. -/
structure Representable (m : Machine) : Prop where
  /-- The names of files and directories are short. -/
  names : ∀ p n, m.disk.at? p = some n → StorablePath p
  /-- The times of the files fit. -/
  times : ∀ p x, m.disk.at? p = some (.file x) → TimeFits x.modifiedTime
  /-- The readings of the clock to come fit as well. -/
  clock : ∀ n, TimeFits (m.clock n)

namespace Representable

variable {m m' : Machine} {s : Name} {p : Path}

theorem resolve (hm : Representable m) (hs : m.resolve s = some p)
    (hlast : ∀ c, (s.splitOn '/').getLast? = some c → Storable 510 c) : StorablePath p := by
  rw [Machine.resolve] at hs
  split at hs
  · cases hs
  · have hne := List.splitOn_ne_nil '/' s
    rw [← List.dropLast_append_getLast hne] at hs
    obtain ⟨x, hx, rfl⟩ := walk_concat hs
    refine StorablePath.stepTo ?_ (hlast _ (List.getLast?_eq_some_getLast hne))
    rcases Disk.isDir_iff.mp hx with rfl | hdir
    · exact List.forall_mem_nil _
    · exact hm.names _ _ hdir

theorem put (hm : Representable m) (hp : StorablePath p) (c : Contents) :
    Representable (m.put p c) where
  names q n hq := by
    by_cases he : q = p
    · exact he ▸ hp
    · rw [Machine.put, Disk.at?_set_of_ne _ _ he] at hq
      exact hm.names q n hq
  times q x hq := by
    by_cases he : q = p
    · subst he
      rw [Machine.put, Disk.at?_set_self] at hq
      cases hq
      exact hm.clock 0
    · rw [Machine.put, Disk.at?_set_of_ne _ _ he] at hq
      exact hm.times q x hq
  clock n := hm.clock (n + 1)

theorem write (hm : Representable m) (bytes : List UInt8)
    (hlast : ∀ c, (s.splitOn '/').getLast? = some c → Storable 510 c) :
    Representable (m.write s bytes) := by
  rw [Machine.write]
  cases hs : m.resolve s with
  | none => exact hm
  | some p =>
    simp only
    split_ifs
    · exact hm
    · exact hm.put (hm.resolve hs hlast) _
    · exact hm

theorem erase (hm : Representable m) (p : Path) :
    Representable { m with disk := m.disk.erase p } where
  names q n hq := by
    by_cases he : q = p
    · subst he
      rw [Disk.at?_erase_self] at hq
      cases hq
    · rw [Disk.at?_erase_of_ne _ he] at hq
      exact hm.names q n hq
  times q x hq := by
    by_cases he : q = p
    · subst he
      rw [Disk.at?_erase_self] at hq
      cases hq
    · rw [Disk.at?_erase_of_ne _ he] at hq
      exact hm.times q x hq
  clock := hm.clock

theorem remove (hm : Representable m) (h : m.remove s = some m') : Representable m' := by
  rcases Machine.remove_cases h with rfl | ⟨q, -, rfl⟩
  · exact hm
  · exact hm.erase q

theorem copyFile {src : Name} (hm : Representable m) (h : m.copyFile src s = some m')
    (hlast : ∀ c, (s.splitOn '/').getLast? = some c → Storable 510 c) : Representable m' := by
  rw [Machine.copyFile] at h
  split at h
  · rename_i hdst
    split at h
    · cases h
    · cases h
      exact hm.put (hm.resolve hdst hlast) _
  · cases h

/-- What is listed is on the disk. -/
theorem storable_of_listed (hm : Representable m) {paths : List Path}
    (h : m.listRecursive s = some paths) {q : Path} (hq : q ∈ paths) :
    Storable 510 (q.getLast?.getD []) := by
  rw [Machine.listRecursive] at h
  split at h
  · split at h
    · cases h
      obtain ⟨⟨n, hn⟩, -⟩ := Machine.mem_entriesBelow.mp ((m.order.perm _).mem_iff.mp hq)
      cases hc : q.getLast? with
      | none => exact storable_nil
      | some c => exact hm.names q n hn c (List.mem_of_getLast? hc)
    · cases h
  · cases h

end Representable

/-! ## The file handler

Each operation makes messages of what is on the disk, and writes what it has read from messages. -/

/-- A file handler on such a machine, with a separator at the end of the sync directory. -/
structure FileHost.Representable (h : FileHost) : Prop where
  /-- The machine. -/
  machine : Bropdox.Representable h.machine
  /-- The sync directory. -/
  trailing : Machine.Trailing h.syncDir

theorem storable_soughtName {f : Name} (hf : Storable 510 f) : Storable 510 (soughtName f) := by
  rw [soughtName]
  split
  · exact storable_filename hf
  · exact hf

theorem storable_filename_of_sought {f : Name} (hf : Storable 510 (soughtName f)) :
    Storable 510 (filename f) := by
  rw [soughtName] at hf
  split at hf
  · exact hf
  · exact storable_filename hf

/-- The packets of a file fit. -/
theorem fits_of_mem_packetsOf {c : Contents} {p : Packet} (hp : p ∈ packetsOf c) :
    Kind.Fits .packet p := by
  obtain ⟨n, hn⟩ := List.mem_iff_getElem?.mp hp
  rw [getElem?_packetsOf] at hn
  split at hn
  · cases hn
    have hsize : (UInt32.ofNat (min packetSize (c.bytes.length - n * packetSize))).toNat =
        min packetSize (c.bytes.length - n * packetSize) :=
      UInt32.toNat_ofNat_of_lt' ((min_le_left ..).trans_lt (by decide))
    refine ⟨?_, ?_⟩
    · rw [hsize]
      exact min_le_left ..
    · rw [hsize, List.length_take, List.length_drop]
  · cases hn

namespace FileHost.Representable

variable {h s : FileHost} {f name : Name} {info : FileInfo}

/-- Behind the sync directory the last component is that of the name. -/
theorem storable_last (hh : h.Representable) (hf : Storable 510 f) :
    ∀ c, ((h.syncDir ++ f).splitOn '/').getLast? = some c → Storable 510 c := by
  obtain ⟨d, hd⟩ := hh.trailing
  intro c hc
  rw [hd, List.append_assoc, List.singleton_append, getLast?_splitOn_slash] at hc
  exact hf.of_mem_splitOn (List.mem_of_getLast? hc)

/-- A file is written behind the sync directory under a name that can be stored. -/
theorem storable_written (hh : h.Representable) {path : Name} (hf : Storable 510 (soughtName f)) :
    ∀ c, ((h.writePath f path).splitOn '/').getLast? = some c → Storable 510 c := by
  rw [soughtName] at hf
  rw [writePath]
  split_ifs at hf ⊢
  · exact hh.storable_last hf
  · intro c hc
    rw [List.append_assoc, List.singleton_append, getLast?_splitOn_slash] at hc
    exact hf.of_mem_splitOn (List.mem_of_getLast? hc)
  · exact hh.storable_last hf

theorem fileInfo (hh : h.Representable) (hname : Storable 510 name)
    (hv : Bropdox.fileInfo h.machine name h.syncDir = .ok info) : info.Fits := by
  rw [Bropdox.fileInfo] at hv
  split at hv
  · split at hv
    · rename_i x hx
      cases hv
      obtain ⟨p, hp⟩ : ∃ p, h.machine.disk.at? p = some (.file x) := by
        rw [Machine.stat] at hx
        split at hx
        · rename_i y hy
          cases hx
          obtain ⟨p, -, hp⟩ := Option.bind_eq_some_iff.mp hy
          exact ⟨p, hp⟩
        · cases hx
      exact ⟨hname, x.contents.fits, hh.machine.times p x hp⟩
    · cases hv
  · cases hv
    exact ⟨hname, Nat.two_pow_pos 64, by simp, by simp⟩

/-- **The entries of a listing fit.** -/
theorem getFileInfoList (hh : h.Representable) {entries : List FileData}
    (hlist : h.getFileInfoList = .ok entries) : ∀ e ∈ entries, e.file.Fits := by
  rw [FileHost.getFileInfoList] at hlist
  split at hlist
  · rename_i paths hpaths
    intro e he
    obtain ⟨q, hq, hentry⟩ := mem_of_mapM_ok hlist he
    rw [listEntry] at hentry
    cases hv : Bropdox.fileInfo h.machine (q.getLast?.getD []) h.syncDir with
    | error x =>
      rw [hv] at hentry
      cases hentry
    | ok info =>
      rw [hv] at hentry
      cases hentry
      exact hh.fileInfo (hh.machine.storable_of_listed hpaths hq) hv
  · cases hlist

end FileHost.Representable

/-! ## The programs

The rule that all names fit is kept by both programs. -/

/-- Messages that fit. -/
def FittingMessage (d : Datagram sessionWire) : Prop := d.1.Fits d.2

/-- Names that a `file_info` has room for, and what fits. -/
def fittingRule : NameRule where
  name f := Storable 510 (soughtName f)
  served f := Storable 510 (soughtName f)
  data file := file.Fits
  event file := file.Fits
  packet := Kind.Fits .packet
  name_of_data h := storable_soughtName h.1
  served_of_data h := storable_soughtName h.1
  name_of_event h := storable_soughtName h.1
  data_default := ⟨storable_nil, by decide, by decide, by decide⟩
  event_default := ⟨storable_nil, by decide, by decide, by decide⟩

theorem fits_of_says {d : Datagram sessionWire} (h : fittingRule.Says d) : FittingMessage d := by
  obtain ⟨κ, m⟩ := d
  cases κ <;> first | exact h | exact h.elim

theorem hears_of_fits {d : Datagram sessionWire} (h : FittingMessage d) : fittingRule.Hears d := by
  obtain ⟨κ, m⟩ := d
  cases κ <;> first | exact h | trivial

/-- **What an operation returns fits, and what it writes can be sent again.** -/
theorem FileHost.Representable.exec {h s : FileHost} (hh : h.Representable) {o : FileOp} {v : o.Res}
    (ho : fittingRule.Named o) (hx : o.exec h = .ok (v, s)) :
    fittingRule.Returns o (.ok v) ∧ s.Representable := by
  constructor
  · cases o with
    | readFile f =>
      obtain ⟨x, -, hpackets⟩ := FileHost.stat_of_readFile (look_eq_ok_iff.mp hx).1
      exact fun p hp ↦ fits_of_mem_packetsOf (hpackets ▸ hp)
    | getFileInfo f => exact hh.fileInfo ho (look_eq_ok_iff.mp hx).1
    | getFileInfoList => exact hh.getFileInfoList (look_eq_ok_iff.mp hx).1
    | _ => trivial
  · rcases FileOp.exec_cases hx with rfl | ⟨f, data, path, bytes, rfl, rfl⟩ |
      ⟨f, m, rfl, hm, rfl⟩ | ⟨f, rfl⟩
    · exact hh
    · exact ⟨hh.machine.write bytes (hh.storable_written ho), hh.trailing⟩
    · exact ⟨hh.machine.remove hm, hh.trailing⟩
    · obtain rfl : (h.copyFileToSyncDir f).2 = s := congrArg Prod.snd (Except.ok.inj hx)
      rw [FileHost.copyFileToSyncDir]
      split
      · rename_i m hm
        have hname := hh.storable_last (storable_filename_of_sought ho)
        exact ⟨hh.machine.copyFile hm hname, hh.trailing⟩
      · exact hh

theorem handler_fits (o : FileOp) (h : FileHost) (v : o.Res) (s : FileHost)
    (ho : fittingRule.handlerCode.op o) (hh : h.Representable) (hx : o.exec h = .ok (v, s)) :
    fittingRule.Returns o (.ok v) ∧ s.Representable := by
  cases o with
  | writeFile f data path => exact hh.exec (o := .writeFile f data path) ho.1 hx
  | copyFileToSyncDir f => exact ho.elim
  | _ => exact hh.exec ho hx

theorem client_fits (o : FileOp) (h : FileHost) (v : o.Res) (s : FileHost)
    (ho : fittingRule.clientCode.op (.file o)) (hh : h.Representable) (hx : o.exec h = .ok (v, s)) :
    fittingRule.Returns o (.ok v) ∧ s.Representable := by
  cases o with
  | getFileInfoList => exact ho.elim
  | _ => exact hh.exec ho hx

/-- The names of a command, or the events of a synchronisation, fit. -/
abbrev Deed.Fits (deed : Deed) : Prop := deed.Named fittingRule

/-- A reading that makes nothing of a datagram but what fits: all strings in it are terminated
within their arrays, and a packet states no more bytes than its buffer has. -/
def ReadsFitting (read : Reading sessionWire) : Prop :=
  ∀ (κ : Kind) (d : Datagram sessionWire) (m : κ.Msg), read κ d = some m → κ.Fits m

/-- **Nothing that is sent overflows**, whatever arrives and however it is read, as long as what is
read fits; and what is on the disk goes on fitting: on the server, and on the client if what it is
asked to do fits. -/
theorem sessions_never_overflow :
    (∀ (h : FileHost) (req : Req) (sent : List (Parcel sessionWire))
        (e : Endpoint sessionWire RequestHandler.sig Bool), h.Representable →
      Endpoint.RunBy ReadsFitting RequestHandler.body ⟨h, RequestHandler.handleRequest req⟩ sent e →
        e.host.Representable ∧ ∀ p ∈ sent, FittingMessage p.2) ∧
    ∀ (h : Client.Host) (deed : Deed) (sent : List (Parcel sessionWire))
        (e : Endpoint sessionWire Client.sig Bool), h.files.Representable → deed.Fits →
      Endpoint.RunBy ReadsFitting Client.body ⟨h, deed.program⟩ sent e →
        e.host.files.Representable ∧ ∀ p ∈ sent, FittingMessage p.2 := by
  constructor
  · intro h req sent e hh hrun
    obtain ⟨-, hhost, hsent⟩ := hrun.heeds (RequestHandler.sound_handlerCode handler_fits)
      (fun _ hread κ d m hm ↦ hears_of_fits (hread κ d m hm))
      (RequestHandler.obeys_handleRequest req) hh
    exact ⟨hhost, fun p hp ↦ fits_of_says (hsent p hp)⟩
  · intro h deed sent e hh hdeed hrun
    obtain ⟨-, hhost, hsent⟩ := hrun.heeds (Client.sound_clientCode client_fits)
      (fun _ hread κ d m hm ↦ hears_of_fits (hread κ d m hm)) hdeed.obeys hh
    exact ⟨hhost, fun p hp ↦ fits_of_says (hsent p hp)⟩

/-- A server with a file, on which it is always the same time. -/
def punctualServer : FileHost :=
  .ofFiles (fun _ ↦ 7) ['s'] [(['f'], ⟨.threeBytes, 5⟩)] countPackets

theorem representable_ofFiles {clock : Nat → Int} {d : Name} {files : List (Name × File)}
    {reported : Nat → Nat} (hclock : ∀ n, TimeFits (clock n)) (hd : Storable 510 d)
    (hfiles : ∀ f ∈ files, Storable 510 f.1 ∧ TimeFits f.2.modifiedTime) :
    (FileHost.ofFiles clock d files reported).Representable := by
  have hdir : StorablePath [d] := List.forall_mem_singleton.mpr hd
  have hnode : ∀ p n, (FileHost.ofFiles clock d files reported).machine.disk.at? p = some n →
      (∃ f ∈ files, p = [d] ++ [f.1] ∧ n = .file f.2) ∨ (p <+: [d] ∧ n = .dir) := by
    intro p n hn
    rcases List.mem_append.mp (Disk.mem_of_at?_ofList hn) with hmem | hmem
    · obtain ⟨f, hf, he⟩ := List.mem_map.mp hmem
      cases he
      exact .inl ⟨f, hf, rfl, rfl⟩
    · obtain ⟨p', hp', he⟩ := List.mem_map.mp hmem
      cases he
      exact .inr ⟨(List.mem_inits _ _).mp hp', rfl⟩
  refine ⟨⟨fun p n hn ↦ ?_, fun p x hx ↦ ?_, hclock⟩, '/' :: d, rfl⟩
  · rcases hnode p n hn with ⟨f, hf, rfl, -⟩ | ⟨hp, -⟩
    · exact List.forall_mem_append.mpr ⟨hdir, List.forall_mem_singleton.mpr (hfiles f hf).1⟩
    · exact fun c hc ↦ hdir c (hp.subset hc)
  · rcases hnode p _ hx with ⟨f, hf, -, he⟩ | ⟨-, he⟩
    · cases he
      exact (hfiles f hf).2
    · cases he

theorem representable_punctualServer : punctualServer.Representable :=
  representable_ofFiles (fun _ ↦ ⟨by decide, by decide⟩) (storable_singleton (by decide))
    (List.forall_mem_singleton.mpr ⟨storable_singleton (by decide), by decide, by decide⟩)

/-- A server that is asked for a listing sends the number of its files and the entry of its file,
and reads the acknowledgement that it waits for. -/
theorem listing_fits : ∃ sent e,
    Endpoint.RunBy ReadsFitting RequestHandler.body
      ⟨punctualServer, RequestHandler.handleRequest .list⟩ sent e ∧
      sent.length = 2 ∧ ∀ p ∈ sent, FittingMessage p.2 := by
  let read : Reading sessionWire := fun κ d ↦ if κ = Kind.ack then typed κ d else none
  have hread : ReadsFitting read := by
    intro κ d m h
    obtain ⟨rfl, -⟩ := Option.ite_none_right_eq_some.mp h
    trivial
  have hrun : ∃ sent e, Endpoint.RunBy ReadsFitting RequestHandler.body
      ⟨punctualServer, RequestHandler.handleRequest .list⟩ sent e ∧ sent.length = 2 := by
    have hstart : Endpoint.RunBy ReadsFitting RequestHandler.body
        ⟨punctualServer, RequestHandler.handleRequest .list⟩ [] _ := .nil
    have hwait := hstart.snoc (i := some [parcel .ack ⟨true⟩]) hread rfl
    have hlist := hwait.snoc (i := none) hread rfl
    have hcount := hlist.snoc (i := none) hread rfl
    exact ⟨_, _, hcount.snoc (i := none) hread rfl, rfl⟩
  obtain ⟨sent, e, hrun, hlen⟩ := hrun
  exact ⟨sent, e, hrun, hlen,
    (sessions_never_overflow.1 _ _ _ _ representable_punctualServer hrun).2⟩

end Bropdox
