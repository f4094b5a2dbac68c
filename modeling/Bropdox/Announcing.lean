import Bropdox.Members
import Bropdox.UserDirs

/-!
# What the primary says in a synchronisation

`sync` waits for nothing, so all of it is one list of datagrams that depends on the primary's disk
alone, and the session with a backup can be taken apart: this file says what the list is, and
`Replication.lean` what a backup makes of it.

The directory of a user is called `./sync_dir_<user>` here, without a separator at the end.
`read_file` does not mind, but `get_file_info` and the listing glue the name of the file to it, and
look at what happens to be called `sync_dir_<user><file>`: usually nothing, so that every file is
listed as empty.

## What is here

* `Serves` is what is asked of the machine of a primary: the directories of its working directory
  are those of users, with regular files only.
* `stray` is what is found in the wrong place, and `Listable` says that it is no directory; then the
  listing of a user's directory comes to its end (`getFileInfoList_user`), and otherwise it throws.
* `syncNews` is the list, put together from `userNews` for each user, `fileNews` for each file and
  `packetNews` for its packets.
* `says_sync`: a synchronisation in which every directory can be listed says these datagrams to
  every member of the group, and nothing else.
* `says_sync_throws`: where one directory cannot be listed, it ends with an exception.
-/

set_option autoImplicit false

namespace Bropdox

open FileSystem Session Program ReplicaManager Members

/-- The machine of a primary: it works in a directory that has no directories but those of users,
which hold regular files only. -/
structure Serves (m : Machine) : Prop where
  /-- The machine has a working directory. -/
  here : m.disk.isDir m.cwd = true
  /-- The directories of the working directory are those of users. -/
  users : ∀ n, m.disk.isDir (m.cwd ++ [n]) = true → ∃ u, UserId u ∧ n = userDir u
  /-- The directories of users are flat. -/
  flat : ∀ u, HasUser m u → FlatDir m (userDirPath u ++ ['/']) (userPath m u)

theorem Serves.userId {m : Machine} (hm : Serves m) {u : Name} (hu : HasUser m u) : UserId u := by
  obtain ⟨v, hv, huv⟩ := hm.users (userDir u) hu
  rw [userDir_injective huv]
  exact hv

/-! ## Looking in the wrong place

What `get_file_info` finds where a separator is missing. -/

/-- What is called like the directory of a user with the name of a file glued to it. -/
def stray (m : Machine) (u : Name) : Store := fun f ↦
  match m.disk.at? (m.cwd ++ [userDir u ++ f]) with
  | some (.file x) => some x
  | _ => none

/-- No directory is called like a file of the user glued to the user's directory. -/
def Listable (m : Machine) (u : Name) : Prop :=
  ∀ f x, m.view (userPath m u) f = some x → m.disk.isDir (m.cwd ++ [userDir u ++ f]) = false

section Looking

variable {m : Machine} {h : FileHost} {u f : Name} {x : File}

theorem resolve_stray (hm : Serves m) (hu : HasUser m u) (hf : Plain f) :
    m.resolve (userDirPath u ++ f) = some (m.cwd ++ [userDir u ++ f]) := by
  rw [userDirPath, List.append_assoc]
  exact Machine.resolve_plain (s := ['.']) (Machine.resolve_dot_slash hm.here)
    (plain_userDir_append (hm.userId hu).noSlash hf.noSlash)

theorem fileInfo_stray (hm : Serves m) (hu : HasUser m u) (hf : Plain f)
    (hdir : m.disk.isDir (m.cwd ++ [userDir u ++ f]) = false) :
    fileInfo m f (userDirPath u) = .ok (infoOf (stray m u) f) := by
  rw [fileInfo, Machine.exists, Machine.stat, resolve_stray hm hu hf, infoOf, Store.size,
    Store.modifiedTime, stray]
  cases hat : m.disk.at? (m.cwd ++ [userDir u ++ f]) with
  | none => simp [hdir, hat]
  | some n =>
    cases n with
    | dir => simp [Disk.isDir, hat] at hdir
    | file x => simp [hdir, hat]

theorem fileInfo_stray_error (hm : Serves m) (hu : HasUser m u) (hf : Plain f)
    (hdir : m.disk.isDir (m.cwd ++ [userDir u ++ f]) = true) :
    fileInfo m f (userDirPath u) = .error .filesystemError := by
  have hat : m.disk.at? (m.cwd ++ [userDir u ++ f]) = some .dir :=
    (Disk.isDir_iff.mp hdir).resolve_left (by simp)
  rw [fileInfo, Machine.exists, Machine.stat, resolve_stray hm hu hf]
  simp [hdir, hat]

theorem resolve_userDirPath (hm : Serves m) (hu : HasUser m u) :
    m.resolve (userDirPath u) = some (userPath m u) :=
  Machine.resolve_plain (s := ['.']) (Machine.resolve_dot_slash hm.here) (hm.userId hu).plain

/-- **The listing of the directory of a user.** -/
theorem getFileInfoList_user (hm : Serves h.machine) (hu : HasUser h.machine u)
    (hdir : h.syncDir = userDirPath u) (hlist : Listable h.machine u) :
    h.getFileInfoList = .ok ((FlatDir.listing h.machine (userPath h.machine u)).map fun e ↦
      FileHost.entryOf (stray h.machine u) e.1) := by
  have hflat := hm.flat u hu
  rw [FileHost.getFileInfoList, hdir, hflat.list_of_resolve (resolve_userDirPath hm hu),
    ← hflat.map_fst_listing]
  simp only
  refine (mapM_ok (g := fun q ↦ FileHost.entryOf (stray h.machine u) (q.getLast?.getD []))
    fun q hq ↦ ?_).trans (by simp [Function.comp_def])
  simp only [List.map_map, List.mem_map] at hq
  obtain ⟨e, he, rfl⟩ := hq
  have hx := hflat.mem_listing.mp he
  simp only [Function.comp_apply, List.getLast?_concat, Option.getD_some]
  rw [FileHost.listEntry, List.getLast?_concat, Option.getD_some, hdir,
    fileInfo_stray hm hu (hflat.plain hx) (hlist _ _ hx)]
  rfl

/-- The listing throws where it finds a directory. -/
theorem getFileInfoList_user_error (hm : Serves h.machine) (hu : HasUser h.machine u)
    (hdir : h.syncDir = userDirPath u) (hlist : ¬ Listable h.machine u) :
    ∃ e, h.getFileInfoList = .error e := by
  have hflat := hm.flat u hu
  simp only [Listable, not_forall, Bool.not_eq_false] at hlist
  obtain ⟨f, x, hx, hbad⟩ := hlist
  rw [FileHost.getFileInfoList, hdir, hflat.list_of_resolve (resolve_userDirPath hm hu)]
  refine mapM_error (x := .filesystemError)
    (List.mem_map_of_mem (hflat.mem_names.mpr ⟨x, hx⟩)) ?_
  rw [FileHost.listEntry, List.getLast?_concat, Option.getD_some, hdir,
    fileInfo_stray_error hm hu (hflat.plain hx) hbad]
  rfl

theorem readFile_user (hm : Serves h.machine) (hu : HasUser h.machine u)
    (hdir : h.syncDir = userDirPath u) (hx : h.machine.view (userPath h.machine u) f = some x) :
    h.readFile f = .ok ⟨h.reported x.size, packetsOf x.contents⟩ := by
  have hflat := hm.flat u hu
  have hf := hflat.plain hx
  refine FileHost.readFile_of_stat ?_
  rw [FileHost.readPath, hf.isAbsolute, hdir]
  exact (hflat.stat hf).trans hx

theorem getFileInfo_user (hm : Serves h.machine) (hu : HasUser h.machine u)
    (hdir : h.syncDir = userDirPath u) (hlist : Listable h.machine u)
    (hx : h.machine.view (userPath h.machine u) f = some x) :
    h.getFileInfo f = .ok (infoOf (stray h.machine u) f) := by
  have hf := (hm.flat u hu).plain hx
  rw [FileHost.getFileInfo, hf.isAbsolute, hdir]
  exact fileInfo_stray hm hu hf (hlist f x hx)

end Looking

/-! ## What is said

The datagrams of `sync` as a function of the disk. -/

/-- The packets of a file. -/
def packetNews (packets : List Packet) : List (Datagram groupWire) :=
  packets.map fun packet ↦ ⟨Kind.packet, packet⟩

/-- A file of a user, as the listing has it. -/
def listedFile (h : FileHost) (u f : Name) : FileData := FileHost.entryOf (stray h.machine u) f

/-- A file of a user, as `send_file` announces it. -/
def announcedFile (h : FileHost) (u : Name) (e : Name × File) : FileData :=
  ⟨infoOf (stray h.machine u) e.1, h.announced e.2.contents⟩

/-- What is said of one file of a user. -/
def fileNews (h : FileHost) (u : Name) (e : Name × File) : List (Datagram groupWire) :=
  ⟨Kind.fileData, listedFile h u e.1⟩ :: ⟨Kind.fileData, announcedFile h u e⟩ ::
    packetNews (packetsOf e.2.contents)

/-- What is said of one user. -/
def userNews (h : FileHost) (u : Name) : List (Datagram groupWire) :=
  ⟨Kind.client, ⟨'_' :: u⟩⟩ ::
    ((FlatDir.listing h.machine (userPath h.machine u)).flatMap (fileNews h u) ++
      [⟨Kind.fileData, {}⟩])

/-- What is said of some users. -/
def syncNews (h : FileHost) (us : List Name) : List (Datagram groupWire) :=
  us.flatMap (userNews h) ++ [⟨Kind.client, ⟨[]⟩⟩]

/-- Datagrams, as they are sent to a group. -/
def toGroup (addresses : List SockAddr) (ds : List (Datagram groupWire)) :
    List (Parcel groupWire) :=
  ds.flatMap fun d ↦ toAll d.1 d.2 addresses

theorem toGroup_cons (addresses : List SockAddr) (d : Datagram groupWire)
    (ds : List (Datagram groupWire)) :
    toGroup addresses (d :: ds) = toAll d.1 d.2 addresses ++ toGroup addresses ds := rfl

theorem toGroup_append (addresses : List SockAddr) (ds ds' : List (Datagram groupWire)) :
    toGroup addresses (ds ++ ds') = toGroup addresses ds ++ toGroup addresses ds' :=
  List.flatMap_append

/-- What one member of the group hears. -/
def heard (a : SockAddr) (ds : List (Datagram groupWire)) : List (Parcel groupWire) :=
  ds.map fun d ↦ (a, d)

theorem heard_cons (a : SockAddr) (d : Datagram groupWire) (ds : List (Datagram groupWire)) :
    heard a (d :: ds) = (a, d) :: heard a ds := rfl

theorem heard_append (a : SockAddr) (ds ds' : List (Datagram groupWire)) :
    heard a (ds ++ ds') = heard a ds ++ heard a ds' :=
  List.map_append

theorem forPeer_toGroup {a b : SockAddr} {addresses : List SockAddr}
    (hb : addresses.count b = 1) (ds : List (Datagram groupWire)) :
    forPeer a b (toGroup addresses ds) = heard a ds := by
  induction ds with
  | nil => rfl
  | cons d ds ih =>
    rw [toGroup_cons, forPeer_append, forPeer_toAll, hb, ih]
    rfl

section Saying

variable {γ : Type} {P : Host} {u : Name} {out : List (Parcel groupWire)}
  {e : Endpoint groupWire sig γ}

/-- The primary while it looks at a directory. -/
def lookingAt (P : Host) (path : Name) : Host :=
  { P with files := { P.files with syncDir := path } }

theorem says_file {o : FileOp} {v : o.Res} (ho : o.exec P.files = .ok (v, P.files))
    {k : o.Res → Prog γ} (hs : Endpoint.Says body ⟨P, k v⟩ out e) :
    Endpoint.Says body ⟨P, (ReplicaManager.file o).bind k⟩ out e :=
  .run (P := sig) (Op.exec_file ho) hs

theorem says_file_error {o : FileOp} {x : Exn} (ho : o.exec P.files = .error x)
    {k : o.Res → Prog γ} :
    Endpoint.Says body ⟨P, (ReplicaManager.file o).bind k⟩ [] ⟨P, .throw x⟩ :=
  .run_error (P := sig) (Op.exec_file_error ho)

theorem says_multicastPackets (packets : List Packet) {k : Unit → Prog γ}
    (hs : Endpoint.Says body ⟨P, k ()⟩ out e) :
    Endpoint.Says body ⟨P, (multicastPackets packets).bind k⟩
      (toGroup P.group.values (packetNews packets) ++ out) e := by
  induction packets with
  | nil => exact hs
  | cons packet packets ih =>
    rw [multicastPackets, bind_eq, bind_assoc]
    have hnews : packetNews (packet :: packets) = ⟨Kind.packet, packet⟩ :: packetNews packets := rfl
    rw [hnews, toGroup_cons, List.append_assoc]
    exact says_multicast ih

/-- The loop over the files of a user. -/
theorem says_sendFiles (hm : Serves P.files.machine) (hu : HasUser P.files.machine u)
    (hdir : P.files.syncDir = userDirPath u) (hlist : Listable P.files.machine u)
    {files : List (Name × File)} (hfiles : ∀ e ∈ files,
      P.files.machine.view (userPath P.files.machine u) e.1 = some e.2)
    {k : Unit → Prog γ} (hs : Endpoint.Says body ⟨P, k ()⟩ out e) :
    Endpoint.Says body ⟨P, (sendFiles (files.map fun e ↦ listedFile P.files u e.1)).bind k⟩
      (toGroup P.group.values (files.flatMap (fileNews P.files u)) ++ out) e := by
  induction files with
  | nil => exact hs
  | cons f files ih =>
    have hx := hfiles f List.mem_cons_self
    rw [List.map_cons, sendFiles, sendFile, List.flatMap_cons, fileNews]
    simp only [bind_eq, Program.bind_assoc, List.cons_append, toGroup_cons, toGroup_append,
      List.append_assoc]
    refine says_multicast (says_file (FileOp.exec_readFile (readFile_user hm hu hdir hx)) ?_)
    refine says_file (FileOp.exec_getFileInfo (getFileInfo_user hm hu hdir hlist hx)) ?_
    refine says_multicast (says_multicastPackets _ ?_)
    exact ih fun e he ↦ hfiles e (List.mem_cons_of_mem _ he)

/-- The directory of one user. -/
theorem says_sendDirectory (hm : Serves P.files.machine) (hu : HasUser P.files.machine u)
    (hlist : Listable P.files.machine u) {k : Unit → Prog γ}
    (hs : Endpoint.Says body ⟨lookingAt P (userDirPath u), k ()⟩ out e) :
    Endpoint.Says body ⟨P, (sendDirectory (userDirPath u)).bind k⟩
      (toGroup P.group.values (userNews P.files u) ++ out) e := by
  have hlisted : FileOp.getFileInfoList.exec (lookingAt P (userDirPath u)).files = .ok (_, _) :=
    FileOp.exec_getFileInfoList (getFileInfoList_user hm hu rfl hlist)
  rw [sendDirectory, (hm.userId hu).filename, (hm.userId hu).clientName, orThrow]
  simp only [bind_eq, Program.bind_assoc, ret_bind, userNews, toGroup_cons, toGroup_append,
    List.append_assoc]
  refine says_multicast (says_update (says_file hlisted ?_))
  refine says_sendFiles (P := lookingAt P (userDirPath u)) hm hu rfl hlist
    (fun e he ↦ (hm.flat u hu).mem_listing.mp he) ?_
  exact says_multicast hs

/-- The directory of one user that cannot be listed. -/
theorem says_sendDirectory_throws (hm : Serves P.files.machine) (hu : HasUser P.files.machine u)
    (hlist : ¬ Listable P.files.machine u) {k : Unit → Prog γ} :
    ∃ out P' x, Endpoint.Says body ⟨P, (sendDirectory (userDirPath u)).bind k⟩ out
      ⟨P', .throw x⟩ := by
  obtain ⟨x, hx⟩ := getFileInfoList_user_error (h := (lookingAt P (userDirPath u)).files)
    hm hu rfl hlist
  rw [sendDirectory, (hm.userId hu).filename, (hm.userId hu).clientName, orThrow]
  simp only [bind_eq, Program.bind_assoc, ret_bind]
  exact ⟨_, _, x, says_multicast
    (says_update (says_file_error (FileOp.exec_getFileInfoList_error hx)))⟩

/-- All directories. -/
theorem says_sendDirectories (hm : Serves P.files.machine) {us : List Name}
    (hus : ∀ u ∈ us, HasUser P.files.machine u ∧ Listable P.files.machine u) :
    ∃ path, ∀ (k : Unit → Prog γ) out e,
      Endpoint.Says body ⟨lookingAt P path, k ()⟩ out e →
        Endpoint.Says body ⟨P, (sendDirectories (us.map userDirPath)).bind k⟩
          (toGroup P.group.values (us.flatMap (userNews P.files)) ++ out) e := by
  induction us generalizing P with
  | nil => exact ⟨P.files.syncDir, fun k out e hs ↦ hs⟩
  | cons u us ih =>
    obtain ⟨hu, hlist⟩ := hus u List.mem_cons_self
    obtain ⟨path, hpath⟩ := ih (P := lookingAt P (userDirPath u)) hm fun v hv ↦
      hus v (List.mem_cons_of_mem _ hv)
    refine ⟨path, fun k out e hs ↦ ?_⟩
    rw [List.map_cons, sendDirectories, bind_eq, Program.bind_assoc, List.flatMap_cons,
      toGroup_append, List.append_assoc]
    exact says_sendDirectory hm hu hlist (hpath k out e hs)

theorem says_sendDirectories_throws (hm : Serves P.files.machine) {us : List Name}
    (hus : ∀ u ∈ us, HasUser P.files.machine u)
    (hbad : ∃ u ∈ us, ¬ Listable P.files.machine u) {k : Unit → Prog γ} :
    ∃ out P' x, Endpoint.Says body ⟨P, (sendDirectories (us.map userDirPath)).bind k⟩ out
      ⟨P', .throw x⟩ := by
  induction us generalizing P with
  | nil =>
    obtain ⟨u, hu, -⟩ := hbad
    cases hu
  | cons u us ih =>
    have hu := hus u List.mem_cons_self
    rw [List.map_cons, sendDirectories, bind_eq, Program.bind_assoc]
    by_cases hlist : Listable P.files.machine u
    · obtain ⟨v, hv, hvbad⟩ := hbad
      have hvus : v ∈ us := (List.mem_cons.mp hv).resolve_left fun he ↦ hvbad (he ▸ hlist)
      obtain ⟨out, P', x, hs⟩ := ih (P := lookingAt P (userDirPath u)) hm
        (fun w hw ↦ hus w (List.mem_cons_of_mem _ hw)) ⟨v, hvus, hvbad⟩
      exact ⟨_, P', x, says_sendDirectory hm hu hlist hs⟩
    · exact says_sendDirectory_throws hm hu hlist

/-! ## The synchronisation

The loop over the users, from the list of directories that the working directory has. -/

/-- The users of a primary, in the order in which they are listed. -/
theorem exists_users (hm : Serves P.files.machine) :
    ∃ us : List Name, directories P.files = .ok (us.map userDirPath) ∧ us.Nodup ∧
      ∀ u, u ∈ us ↔ HasUser P.files.machine u :=
  directories_eq hm.here fun n hn ↦ by
    obtain ⟨u, -, hu⟩ := hm.users n hn
    exact ⟨u, hu⟩

theorem exec_directories {paths : List Name} (hdirs : directories P.files = .ok paths) :
    Op.directories.exec P = .ok (paths, P) := by
  simp [Op.exec, hdirs, Except.map]

/-- **What a synchronisation says.** -/
theorem says_sync (hm : Serves P.files.machine) {us : List Name}
    (hdirs : directories P.files = .ok (us.map userDirPath))
    (hus : ∀ u ∈ us, HasUser P.files.machine u ∧ Listable P.files.machine u) :
    ∃ path, Endpoint.Says body ⟨P, sync⟩
      (toGroup P.group.values (⟨Kind.rmOperation, ⟨.sync⟩⟩ :: syncNews P.files us))
      ⟨lookingAt P path, .ret ()⟩ := by
  obtain ⟨path, hpath⟩ := says_sendDirectories (γ := Unit) hm hus
  refine ⟨path, ?_⟩
  rw [toGroup_cons, syncNews, toGroup_append]
  simp only [sync, bind_eq]
  refine says_multicast (.run (P := sig) (exec_directories hdirs) (hpath _ _ _ ?_))
  rw [← bind_ret (multicast _ _)]
  exact says_multicast (.refl _)

/-- A synchronisation that cannot list all directories. -/
theorem says_sync_throws (hm : Serves P.files.machine) {us : List Name}
    (hdirs : directories P.files = .ok (us.map userDirPath))
    (hus : ∀ u ∈ us, HasUser P.files.machine u) (hbad : ∃ u ∈ us, ¬ Listable P.files.machine u) :
    ∃ out P' x, Endpoint.Says body ⟨P, sync⟩ out ⟨P', .throw x⟩ := by
  obtain ⟨out, P', x, hs⟩ := says_sendDirectories_throws hm hus hbad
    (k := fun _ ↦ multicast .client ⟨[]⟩)
  exact ⟨_, P', x, says_multicast (.run (P := sig) (exec_directories hdirs) hs)⟩

end Saying
end Bropdox
