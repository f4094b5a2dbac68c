import Bropdox.FlatHost
import Bropdox.ReplicaManager
import Mathlib.Data.List.DropRight
import Mathlib.Data.Set.List

/-!
# The directories of the users

A server keeps the files of a user in `sync_dir_<user>`, in its working directory.  The replica
manager finds these directories by looking for all there are, and a backup makes up the name of a
directory from what it is told of a user.  This module says where the path strings lead that come of
this, and what becomes of a machine when a file is received.

## What is here

* `Machine.Ordinary` and `Machine.Wrote` are what is asked of a machine, and what writing a file
  does to it.
* `userDir` is the name of a user's directory and `UserId` the names of users that can have one;
  `clientName_append` and `rebuilt_iff` say what becomes of a name that the primary takes apart and
  the backup puts together.  A name without an underscore is kept, and of another one only the part
  behind the last underscore.
* `syncFiles` is what a machine has in a user's directory, by paths, and `HasUser` says that there
  is such a directory.
* `entered_took` and `wrote_store` are the two steps in which a backup receives a file: a directory
  is entered, which may have to be made, and the packets are written.  `Took` is what both leave of
  the machine.
* `directories_eq`: where all directories of the working directory are users', the iteration of the
  primary visits each user once.
-/

set_option autoImplicit false

namespace FileSystem.Machine

variable {m m' m'' : Machine} {n : Name}

/-- A machine as it is found in practice. -/
structure Ordinary (m : Machine) : Prop where
  /-- The machine has a working directory. -/
  here : m.disk.isDir m.cwd = true
  /-- Everything is in a directory. -/
  tree : m.disk.IsTree

theorem resolve_dot (h : m.disk.isDir m.cwd = true) : m.resolve ['.'] = some m.cwd := by
  simp [resolve, show ['.'].splitOn '/' = [['.']] from rfl, Disk.walk, Disk.stepTo, h,
    isAbsolute]

theorem resolve_dot_slash (h : m.disk.isDir m.cwd = true) :
    m.resolve (['.'] ++ ['/']) = some m.cwd := by
  simp [resolve, show ['.', '/'].splitOn '/' = [['.'], []] from rfl, Disk.walk, Disk.stepTo, h,
    isAbsolute]

theorem resolve_here (h : m.disk.isDir m.cwd = true) (hn : Plain n) :
    m.resolve n = some (m.cwd ++ [n]) := by
  rw [resolve, if_neg hn.ne_nil, hn.isAbsolute, splitOn_plain hn.noSlash, Disk.walk]
  simp [h, hn.stepTo, Disk.walk]

theorem resolve_here_slash (h : m.disk.isDir m.cwd = true) (hn : Plain n) :
    m.resolve (n ++ ['/']) =
      if m.disk.isDir (m.cwd ++ [n]) then some (m.cwd ++ [n]) else none := by
  have habs : isAbsolute (n ++ ['/']) = false := by
    obtain ⟨c, cs, rfl⟩ := List.exists_cons_of_ne_nil hn.ne_nil
    exact hn.isAbsolute
  have hempty (p : Path) : m.disk.walk p (([] : Name).splitOn '/')
      = if m.disk.isDir p then some p else none := by
    simp [show ([] : Name).splitOn '/' = [[]] from rfl, Disk.walk, Disk.stepTo]
  rw [resolve_slash, habs, splitOn_plain hn.noSlash, Disk.walk]
  simp only [Bool.false_eq_true, if_false, h, if_true, hn.stepTo, Disk.walk, Option.bind_some,
    hempty]

/-- A separator at the end is taken off. -/
theorem chopped_slash (hn : Plain n) : chopped (n ++ ['/']) = n := by
  show List.rdropWhile (· == '/') (n ++ ['/']) = n
  rw [List.rdropWhile_concat_pos _ _ _ rfl, List.rdropWhile_eq_self_iff]
  intro hne hlast
  have hmem := List.getLast_mem hne
  rw [beq_iff_eq.mp hlast] at hmem
  exact hn.noSlash hmem

/-- The contents of a file have been written, unless there is a directory in its place. -/
structure Wrote (m m' : Machine) (p : Path) (c : Contents) : Prop where
  /-- The directories are the same. -/
  sameTree : SameTree m m'
  /-- Everything else is the same. -/
  at?_of_ne : ∀ q, q ≠ p → m'.disk.at? q = m.disk.at? q
  /-- The file is there. -/
  at?_self : m.disk.isDir p = false → ∃ time, m'.disk.at? p = some (.file ⟨c, time⟩)

theorem Wrote.trans {p : Path} {c c' : Contents} (h : Wrote m m' p c) (h' : Wrote m' m'' p c') :
    Wrote m m'' p c' where
  sameTree := h.sameTree.trans h'.sameTree
  at?_of_ne q hq := (h'.at?_of_ne q hq).trans (h.at?_of_ne q hq)
  at?_self hp := h'.at?_self ((h.sameTree.isDir p).trans hp)

theorem wrote_write {s : Name} {p : Path} (hs : m.resolve s = some p) (c : Contents) :
    Wrote m (m.write s c.bytes) p c where
  sameTree := sameTree_write m s c.bytes
  at?_of_ne q hq := at?_write_of_ne (fun hq' ↦ hq (Option.some_inj.mp (hq'.symm.trans hs))) _
  at?_self hp := by
    rw [write_of_resolve hs hp]
    exact ⟨_, Disk.at?_set_self ..⟩

end FileSystem.Machine

namespace Bropdox

open FileSystem ReplicaManager

/-! ## Names and paths

The names of directories and users, as strings. -/

/-- `sync_dir_<user>` -/
def userDir (u : Name) : Name := syncDirPrefix ++ '_' :: u

/-- A user that can have a directory of that name, and whose name can be told from it. -/
structure UserId (u : Name) : Prop where
  /-- The name has no underscore. -/
  noUnderscore : '_' ∉ u
  /-- The name has no separator. -/
  noSlash : '/' ∉ u

instance (u : Name) : Decidable (UserId u) :=
  decidable_of_iff ('_' ∉ u ∧ '/' ∉ u) ⟨fun h ↦ ⟨h.1, h.2⟩, fun h ↦ ⟨h.1, h.2⟩⟩

theorem userDir_injective : Function.Injective userDir := fun u v h ↦ by
  simpa [userDir] using h

/-- A name that starts like the directory of a user is a plain one. -/
theorem plain_userDir_append {u : Name} (hu : '/' ∉ u) {s : Name} (hs : '/' ∉ s) :
    Plain (userDir u ++ s) where
  ne_nil := nofun
  noSlash := by simp [userDir, syncDirPrefix, hu, hs]
  ne_dot := nofun
  ne_dotdot := nofun

theorem UserId.plain {u : Name} (hu : UserId u) : Plain (userDir u) := by
  simpa using plain_userDir_append hu.noSlash (s := []) nofun

/-- What the primary calls a user: what is behind the last underscore of the directory, with it. -/
theorem clientName_append {t : Name} (ht : '_' ∉ t) (s : Name) :
    clientName (s ++ '_' :: t) = .ok ('_' :: t) := by
  have hmem : '_' ∈ s ++ '_' :: t := List.mem_append_cons_self
  have hall : ∀ c ∈ t.reverse, decide (c ≠ '_') = true := fun c hc ↦ by
    rw [decide_eq_true_iff]
    rintro rfl
    exact ht (List.mem_reverse.mp hc)
  rw [ReplicaManager.clientName, if_pos hmem, List.reverse_append, List.reverse_cons,
    List.append_assoc, List.takeWhile_append_of_pos hall]
  simp

theorem UserId.clientName {u : Name} (hu : UserId u) : clientName (userDir u) = .ok ('_' :: u) :=
  clientName_append hu.noUnderscore syncDirPrefix

theorem backupDir_eq (u : Name) : backupDir ('_' :: u) = userDir u ++ ['/'] := rfl

/-! ## What becomes of a user's name

A user keeps the name through replication if there is no underscore in it; of another one only the
part behind the last underscore is left, and users who have that in common share a directory on the
backup. -/

/-- The part of a user's name that replication leaves. -/
def Tail (u t : Name) : Prop := '_' ∉ t ∧ ∃ s, '_' :: u = s ++ '_' :: t

theorem Tail.clientName {u t : Name} (h : Tail u t) : clientName (userDir u) = .ok ('_' :: t) := by
  obtain ⟨ht, s, hs⟩ := h
  rw [userDir, hs, ← List.append_assoc]
  exact clientName_append ht _

theorem exists_tail (u : Name) : ∃ t, Tail u t := by
  obtain ⟨s, t, hsplit, hnot⟩ := exists_last_cut (List.mem_cons_self : '_' ∈ '_' :: u)
  exact ⟨t, hnot, s, hsplit⟩

theorem tail_self {u : Name} (hu : '_' ∉ u) : Tail u u := ⟨hu, [], rfl⟩

/-- The directory a backup makes up for a directory of the primary. -/
def rebuilt (directoryName : Name) : Except Exn Name := (clientName directoryName).map backupDir

theorem Tail.rebuilt {u t : Name} (h : Tail u t) :
    rebuilt (userDir u) = .ok (userDir t ++ ['/']) := by
  rw [Bropdox.rebuilt, h.clientName]
  rfl

theorem userDir_slash_injective {u v : Name} (h : userDir u ++ ['/'] = userDir v ++ ['/']) :
    u = v :=
  userDir_injective (List.append_cancel_right h)

/-- **A user's directory keeps its name on the backup** just if the user's name has no underscore;
two users' directories are kept apart just if their names do not end alike; and a directory name can
be cut just if there is an underscore in it. -/
theorem rebuilt_iff (u v directoryName : Name) :
    (rebuilt (userDir u) = .ok (userDir u ++ ['/']) ↔ '_' ∉ u) ∧
    (rebuilt (userDir u) ≠ rebuilt (userDir v) ↔ ¬ ∃ t, Tail u t ∧ Tail v t) ∧
    ((∃ name, clientName directoryName = .ok name) ↔ '_' ∈ directoryName) := by
  refine ⟨?_, not_congr ?_, ?_⟩
  · obtain ⟨t, ht⟩ := exists_tail u
    rw [ht.rebuilt]
    constructor
    · intro h
      rw [← userDir_slash_injective (Except.ok.inj h)]
      exact ht.1
    · intro hu
      rw [← ht.rebuilt, (tail_self hu).rebuilt]
  · constructor
    · intro h
      obtain ⟨t, ht⟩ := exists_tail u
      obtain ⟨t', ht'⟩ := exists_tail v
      rw [ht.rebuilt, ht'.rebuilt] at h
      obtain rfl := userDir_slash_injective (Except.ok.inj h)
      exact ⟨t, ht, ht'⟩
    · rintro ⟨t, ht, ht'⟩
      rw [ht.rebuilt, ht'.rebuilt]
  · rw [ReplicaManager.clientName]
    split
    · rename_i hmem
      exact ⟨fun _ ↦ hmem, fun _ ↦ ⟨_, rfl⟩⟩
    · rename_i hmem
      refine ⟨fun h ↦ ?_, fun h ↦ absurd h hmem⟩
      obtain ⟨name, hname⟩ := h
      cases hname

/-- The users `b` and `a_b` share a directory on the backup. -/
theorem underscore_merges : rebuilt (userDir ['a', '_', 'b']) = rebuilt (userDir ['b']) ∧
    ¬ ((∀ u, u ≠ [] → rebuilt (userDir u) = .ok (userDir u ++ ['/'])) ∧
      ∀ directoryName, ∃ name, clientName directoryName = .ok name) := by
  refine ⟨rfl, fun h ↦ ?_⟩
  have hrebuilt := h.1 ['a', '_', 'b'] (by decide)
  revert hrebuilt
  decide

/-- The path of the directory of a user. -/
def userPath (m : Machine) (u : Name) : Path := m.cwd ++ [userDir u]

/-- A machine has a directory for a user. -/
def HasUser (m : Machine) (u : Name) : Prop := m.disk.isDir (userPath m u) = true

theorem hasUser_iff {m : Machine} {u : Name} :
    HasUser m u ↔ m.disk.at? (userPath m u) = some .dir := by
  rw [HasUser, Disk.isDir_iff]
  exact or_iff_right (by simp [userPath])

instance (m : Machine) (u : Name) : Decidable (HasUser m u) := inferInstanceAs (Decidable (_ = _))

/-- What there is at a path. -/
def contentsAt (m : Machine) (p : Path) : Option Contents :=
  match m.disk.at? p with
  | some (.file x) => some x.contents
  | _ => none

/-- The files of a user, by their paths in the user's directory. -/
def syncFiles (m : Machine) (u : Name) (q : Path) : Option Contents :=
  if HasUser m u then contentsAt m (userPath m u ++ q) else none

/-! ## A user's directory is entered, and a file is written in it

What one received file does to the machine of a backup, user by user and file by file. -/

/-- The machine once it has a directory for a user. -/
def withUser (m : Machine) (u : Name) : Machine :=
  if HasUser m u then m else { m with disk := m.disk.set (userPath m u) .dir }

/-- Nothing but a directory is in the place where the user's has to be. -/
def Roomy (m : Machine) (u : Name) : Prop := ∀ x, m.disk.at? (userPath m u) ≠ some (.file x)

section Entering

variable {h : FileHost} {m m' : Machine} {u v : Name}

theorem at?_of_not_hasUser (hroom : Roomy m u) (hnone : ¬ HasUser m u) :
    m.disk.at? (userPath m u) = none := by
  cases hat : m.disk.at? (userPath m u) with
  | none => rfl
  | some n =>
    cases n with
    | dir => exact absurd (hasUser_iff.mpr hat) hnone
    | file x => exact absurd hat (hroom x)

theorem resolve_userDir (ho : m.Ordinary) (hu : UserId u) :
    m.resolve (userDir u ++ ['/']) = if HasUser m u then some (userPath m u) else none :=
  Machine.resolve_here_slash ho.here hu.plain

theorem ensureDirectory_eq (ho : h.machine.Ordinary) (hu : UserId u) (hroom : Roomy h.machine u) :
    ensureDirectory h (backupDir ('_' :: u)) = .ok { h with machine := withUser h.machine u } := by
  rw [ensureDirectory, backupDir_eq, Machine.exists, resolve_userDir ho hu, withUser]
  by_cases hdir : HasUser h.machine u
  · have hisDir : h.machine.disk.isDir (userPath h.machine u) = true := hdir
    simp [hdir, hisDir]
  · have hat := at?_of_not_hasUser hroom hdir
    rw [Machine.createDirectory, resolve_userDir ho hu, Machine.chopped_slash hu.plain,
      Machine.resolve_here ho.here hu.plain, ← userPath]
    simp [hdir, hat]

/-- Where there is a file instead, the directory cannot be made. -/
theorem ensureDirectory_error (ho : h.machine.Ordinary) (hu : UserId u)
    (hroom : ¬ Roomy h.machine u) :
    ensureDirectory h (backupDir ('_' :: u)) = .error .filesystemError := by
  obtain ⟨x, hx⟩ : ∃ x, h.machine.disk.at? (userPath h.machine u) = some (.file x) := by
    simpa [Roomy] using hroom
  have hdir : ¬ HasUser h.machine u := by
    rw [hasUser_iff, hx]
    nofun
  rw [ensureDirectory, backupDir_eq, Machine.exists, resolve_userDir ho hu,
    Machine.createDirectory, resolve_userDir ho hu, Machine.chopped_slash hu.plain,
    Machine.resolve_here ho.here hu.plain, ← userPath]
  simp [hdir, hx]

/-- What has become of a machine that has received one file of a user. -/
structure Took (m m' : Machine) (u f : Name) (c : Contents) : Prop where
  /-- The machine is as ordinary as before. -/
  ordinary : m'.Ordinary
  /-- The working directory is the same. -/
  cwd : m'.cwd = m.cwd
  /-- The user has a directory. -/
  hasUser : HasUser m' u
  /-- The other users have not been touched. -/
  at?_of_ne : ∀ v, v ≠ u → ∀ q, m'.disk.at? (userPath m v ++ q) = m.disk.at? (userPath m v ++ q)
  /-- The other files of the user have not been touched. -/
  syncFiles_of_ne : ∀ q, q ≠ [f] → syncFiles m' u q = syncFiles m u q
  /-- The file is there, unless a directory was. -/
  syncFiles_self : syncFiles m' u [f] =
    if m.disk.isDir (userPath m u ++ [f]) then none else some c

theorem ordinary_withUser (ho : m.Ordinary) : (withUser m u).Ordinary := by
  rw [withUser]
  split
  · exact ho
  · refine ⟨?_, ho.tree.set ho.here (.inl rfl)⟩
    have hne : m.cwd ≠ userPath m u := by simp [userPath]
    exact (Disk.isDir_congr (Disk.at?_set_of_ne m.disk .dir hne)).trans ho.here

@[simp] theorem cwd_withUser : (withUser m u).cwd = m.cwd := by
  rw [withUser]
  split <;> rfl

@[simp] theorem userPath_withUser : userPath (withUser m u) v = userPath m v := by
  rw [userPath, cwd_withUser, userPath]

theorem hasUser_withUser : HasUser (withUser m u) u := by
  rw [hasUser_iff, userPath_withUser]
  by_cases hu : HasUser m u
  · rw [withUser, if_pos hu, ← hasUser_iff]
    exact hu
  · rw [withUser, if_neg hu]
    exact Disk.at?_set_self ..

theorem at?_withUser_of_ne {q : Path} (hq : q ≠ userPath m u) :
    (withUser m u).disk.at? q = m.disk.at? q := by
  rw [withUser]
  split
  · rfl
  · exact Disk.at?_set_of_ne _ _ hq

theorem userPath_append_ne {q : Path} (hq : q ≠ []) : userPath m u ++ q ≠ userPath m u := by
  simpa using hq

theorem userPath_append_ne_of_ne (huv : v ≠ u) (q q' : Path) :
    userPath m v ++ q ≠ userPath m u ++ q' := by
  intro he
  simp only [userPath, List.append_assoc, List.singleton_append, List.append_cancel_left_eq,
    List.cons.injEq] at he
  exact huv (userDir_injective he.1)

/-- Making a user's directory makes no files. -/
theorem syncFiles_withUser (ho : m.Ordinary) (q : Path) :
    syncFiles (withUser m u) u q = syncFiles m u q := by
  by_cases hu : HasUser m u
  · rw [withUser, if_pos hu]
  · rw [syncFiles, if_pos hasUser_withUser, syncFiles, if_neg hu, contentsAt, userPath_withUser]
    cases q with
    | nil =>
      rw [List.append_nil]
      have hdir := hasUser_iff.mp (hasUser_withUser (m := m) (u := u))
      rw [userPath_withUser] at hdir
      rw [hdir]
    | cons c q =>
      rw [at?_withUser_of_ne (userPath_append_ne (by simp)),
        ho.tree.at?_eq_none (Bool.eq_false_iff.mpr hu) (by simp)]

/-- **One file has been written in the directory of one user.** -/
theorem took {f : Name} {c : Contents} (ho : m.Ordinary)
    (hw : Machine.Wrote (withUser m u) m' (userPath m u ++ [f]) c) : Took m m' u f c := by
  have hcwd : m'.cwd = m.cwd := hw.sameTree.cwd.trans cwd_withUser
  have hpath (v : Name) : userPath m' v = userPath m v := by rw [userPath, hcwd, userPath]
  have huser : HasUser m' u := by
    rw [HasUser, hpath, hw.sameTree.isDir, ← userPath_withUser]
    exact hasUser_withUser
  have hne : userPath m u ++ [f] ≠ userPath m u := userPath_append_ne (by simp)
  have hdir : (withUser m u).disk.isDir (userPath m u ++ [f]) =
      m.disk.isDir (userPath m u ++ [f]) :=
    Disk.isDir_congr (at?_withUser_of_ne hne)
  refine ⟨⟨?_, fun q b n hn ↦ ?_⟩, hcwd, huser, fun v hv q ↦ ?_, fun q hq ↦ ?_, ?_⟩
  · rw [hw.sameTree.isDir, hw.sameTree.cwd]
    exact (ordinary_withUser ho).here
  · rw [hw.sameTree.isDir]
    by_cases he : q ++ [b] = userPath m u ++ [f]
    · obtain ⟨rfl, -⟩ := List.append_inj' he rfl
      rw [← userPath_withUser]
      exact hasUser_withUser
    · rw [hw.at?_of_ne _ he] at hn
      exact (ordinary_withUser ho).tree q b n hn
  · rw [hw.at?_of_ne _ (userPath_append_ne_of_ne hv q [f]), at?_withUser_of_ne]
    simpa using userPath_append_ne_of_ne (m := m) hv q []
  · have hqf : userPath m u ++ q ≠ userPath m u ++ [f] := by simpa using hq
    rw [← syncFiles_withUser ho, syncFiles, if_pos huser, syncFiles, if_pos hasUser_withUser,
      contentsAt, contentsAt, hpath, userPath_withUser, hw.at?_of_ne _ hqf]
  · rw [syncFiles, if_pos huser, contentsAt, hpath]
    by_cases hd : m.disk.isDir (userPath m u ++ [f]) = true
    · have hd' := hw.sameTree.isDir (userPath m u ++ [f])
      rw [hdir, hd, Disk.isDir_iff] at hd'
      rw [if_pos hd, hd'.resolve_left (by simp)]
    · obtain ⟨time, htime⟩ := hw.at?_self (hdir.trans (Bool.eq_false_iff.mpr hd))
      rw [if_neg hd, htime]

/-- The packets of a file are written in the directory of a user. -/
theorem wrote_store {f : Name} (ho : h.machine.Ordinary) (hu : UserId u)
    (hhas : HasUser h.machine u) (hdir : h.syncDir = backupDir ('_' :: u)) (hf : Plain f)
    {packets : List Packet} {c : Contents}
    (hc : packets.flatMap (Packet.written h.beyond) = c.bytes) :
    Machine.Wrote h.machine (h.store f [] packets).machine (userPath h.machine u ++ [f]) c := by
  have hresolve : h.machine.resolve (userDir u ++ ['/']) = some (userPath h.machine u) := by
    rw [resolve_userDir ho hu, if_pos hhas]
  have hpath : h.writePath f [] = userDir u ++ '/' :: f := by
    rw [FileHost.writePath_eq (soughtName_plain hf), hdir, backupDir_eq, List.append_assoc]
    rfl
  rw [FileHost.store, hpath, hc]
  exact Machine.wrote_write (Machine.resolve_plain hresolve hf) c

end Entering

section Untouched

variable {m m' : Machine} {u v f : Name} {c : Contents}

theorem Took.userPath_eq (ht : Took m m' u f c) (v : Name) : userPath m' v = userPath m v := by
  rw [userPath, ht.cwd, userPath]

/-- What one user's file does not touch. -/
theorem Took.isDir_of_ne (ht : Took m m' u f c) (hv : v ≠ u) (q : Path) :
    m'.disk.isDir (userPath m v ++ q) = m.disk.isDir (userPath m v ++ q) :=
  Disk.isDir_congr (ht.at?_of_ne v hv q)

theorem Took.hasUser_of_ne (ht : Took m m' u f c) (hv : v ≠ u) : HasUser m' v ↔ HasUser m v := by
  have hdir := ht.isDir_of_ne hv []
  rw [List.append_nil] at hdir
  rw [HasUser, HasUser, ht.userPath_eq, hdir]

theorem Took.syncFiles_of_ne_user (ht : Took m m' u f c) (hv : v ≠ u) (q : Path) :
    syncFiles m' v q = syncFiles m v q := by
  simp only [syncFiles, contentsAt, ht.hasUser_of_ne hv, ht.userPath_eq, ht.at?_of_ne v hv]

theorem Took.roomy_of_ne (ht : Took m m' u f c) (hv : v ≠ u) : Roomy m' v ↔ Roomy m v := by
  have hat := ht.at?_of_ne v hv []
  rw [List.append_nil] at hat
  simp only [Roomy, ht.userPath_eq, hat]

end Untouched

/-! ## All users

What the primary finds when it looks for the directories of its users. -/

/-- The path string the primary has for the directory of a user. -/
def userDirPath (u : Name) : Name := ['.', '/'] ++ userDir u

theorem UserId.filename {u : Name} (hu : UserId u) : filename (userDirPath u) = userDir u :=
  hu.plain.filename_slash (by decide : ['.'] ≠ ['/'])

/-- **The directories of the working directory**, if they all are users'. -/
theorem directories_eq {h : FileHost} (hhere : h.machine.disk.isDir h.machine.cwd = true)
    (hdirs : ∀ n, h.machine.disk.isDir (h.machine.cwd ++ [n]) = true → ∃ u, n = userDir u) :
    ∃ us : List Name, directories h = .ok (us.map userDirPath) ∧ us.Nodup ∧
      ∀ u, u ∈ us ↔ HasUser h.machine u := by
  have hlist : h.machine.list ['.'] = some (h.machine.order.arrange
      ((h.machine.entriesBelow h.machine.cwd).filter fun q ↦ q.dropLast == h.machine.cwd)) := by
    rw [Machine.list, Machine.resolve_dot hhere]
    simp [hhere]
  generalize hL : (h.machine.order.arrange ((h.machine.entriesBelow h.machine.cwd).filter
    fun q ↦ q.dropLast == h.machine.cwd)).filter h.machine.disk.isDir = L
  have hmem : ∀ q, q ∈ L ↔ ∃ n, q = h.machine.cwd ++ [n] ∧ h.machine.disk.isDir q = true := by
    intro q
    rw [← hL, List.mem_filter, (h.machine.order.perm _).mem_iff, List.mem_filter,
      Machine.mem_entriesBelow]
    constructor
    · rintro ⟨⟨⟨-, hpre, hne⟩, hlast⟩, hdir⟩
      have hnil : q ≠ [] := by
        rintro rfl
        exact hne (List.prefix_nil.mp hpre)
      refine ⟨q.getLast hnil, ?_, hdir⟩
      rw [← beq_iff_eq.mp hlast, List.dropLast_append_getLast]
    · rintro ⟨n, rfl, hdir⟩
      have hat := (Disk.isDir_iff.mp hdir).resolve_left (by simp)
      exact ⟨⟨⟨⟨_, hat⟩, List.prefix_append .., by simp⟩, by simp⟩, hdir⟩
  have hnodup : L.Nodup := by
    rw [← hL]
    refine List.Nodup.filter _ ((h.machine.order.perm _).nodup_iff.mpr ?_)
    exact (Machine.entriesBelow_nodup ..).filter _
  obtain ⟨us, rfl⟩ : ∃ us : List Name, us.map (userPath h.machine) = L := by
    have hrange : L ∈ Set.range (List.map (userPath h.machine)) := by
      rw [Set.range_list_map]
      intro q hq
      obtain ⟨n, rfl, hdir⟩ := (hmem q).mp hq
      obtain ⟨u, rfl⟩ := hdirs n hdir
      exact ⟨u, rfl⟩
    exact hrange
  have hinj : Function.Injective (userPath h.machine) := fun u v huv ↦
    userDir_injective (by simpa [userPath] using huv)
  refine ⟨us, ?_, hnodup.of_map _, fun u ↦ ?_⟩
  · rw [directories, hlist]
    simp only
    rw [hL, List.map_map]
    refine congrArg _ (List.map_congr_left fun u _ ↦ ?_)
    simp [userPath, userDirPath]
  · rw [← List.mem_map_of_injective hinj, hmem]
    exact ⟨fun ⟨n, _, hdir⟩ ↦ hdir, fun hdir ↦ ⟨_, rfl, hdir⟩⟩

end Bropdox
