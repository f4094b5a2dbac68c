import Bropdox.Counts
import Bropdox.FlatHost
import Mathlib.Data.List.Forall2

/-!
# What a listing says

`get_file_info_list` visits everything below the sync directory, at any depth, but looks every entry
up again by its last component, directly in the sync directory.  A directory has no size, so that a
tree with a sub-directory cannot be listed at all; without one the tree is flat and every file is
looked up where it is.

The number of packets of an entry goes through a float, and through 32 bits, so that it is right
only for some sizes.

## What is here

* `TreeDir` is a directory with its files and sub-directories, and `FileBelow` a regular file of it
  at any depth.
* `ListsFiles` says of a list that it has one entry for every such file, with its own name, size and
  time, and nothing else, and `CountsBelow` that the counts are right.
* `lists_iff`: a listing is exact if there is no sub-directory and every count is right, and only
  then.
* `ListsRight` are the sizes that are counted right: all those below `2 ^ 24`, and of the larger
  ones those that are not rounded past the end of a packet.
* `tree_listed_iff` puts the two together, for every tree.
* `subdirectory_not_listed` and `small_files_listed` are a tree with a sub-directory and one with
  two small files.
-/

set_option autoImplicit false

namespace Bropdox

open FileSystem Rounding

/-- A directory with its files and sub-directories: the string names the directory at `p`, with its
trailing separator. -/
structure TreeDir (m : Machine) (dir : Name) (p : Path) : Prop where
  /-- The string ends in a separator. -/
  trailing : ∃ s, dir = s ++ ['/']
  /-- The string leads to `p`. -/
  resolves : m.resolve dir = some p
  /-- The string is not that of two separators, which would make the name of a net of what follows.
  -/
  ne_net : dir ≠ ['/', '/']
  /-- Everything is in a directory. -/
  tree : m.disk.IsTree
  /-- What is below `p` has plain names. -/
  plain : ∀ q f n, m.disk.at? (q ++ [f]) = some n → p <+: q → Plain f

/-- A regular file of the tree at `p`. -/
def FileBelow (m : Machine) (p q : Path) (x : File) : Prop :=
  p <+: q ∧ q ≠ p ∧ m.disk.at? q = some (.file x)

/-- No directory lies below `p`. -/
def NoSubdirs (m : Machine) (p : Path) : Prop :=
  ∀ q, p <+: q → q ≠ p → m.disk.at? q ≠ some .dir

/-- One entry for every regular file below `p`, with its own name, size and time and a given count
of packets; and nothing else. -/
def ListsFiles (m : Machine) (p : Path) (count : Nat → Nat) (es : List FileData) : Prop :=
  ∃ qs : List Path, qs.Nodup ∧ (∀ q, q ∈ qs ↔ ∃ x, FileBelow m p q x) ∧
    List.Forall₂ (fun q e ↦ ∃ x, FileBelow m p q x ∧
      e.file = ⟨q.getLast?.getD [], x.size, x.modifiedTime⟩ ∧
      e.numPackets.toNat = count x.size) qs es

/-- The count of an entry is right for every file below `p`. -/
def CountsBelow (m : Machine) (p : Path) (count : Nat → Nat) : Prop :=
  ∀ q x, FileBelow m p q x → (listedCount x.size).toNat = count x.size

namespace TreeDir

variable {m : Machine} {dir : Name} {p : Path}

/-- A tree without sub-directories is flat. -/
theorem flat (h : TreeDir m dir p) (hn : NoSubdirs m p) : FlatDir m dir p := by
  refine ⟨h.trailing, h.ne_net, h.resolves, fun q n hq hpre hne ↦ ?_⟩
  obtain ⟨r, rfl⟩ := hpre
  obtain ⟨r, f, rfl⟩ := (List.eq_nil_or_concat r).resolve_left fun he ↦ hne (by simp [he])
  rw [List.concat_eq_append, ← List.append_assoc] at hq
  have hdir := h.tree _ _ _ hq
  have hr : r = [] := by
    by_contra hr
    have hlow : p ++ r ≠ [] := by simp [hr]
    exact hn (p ++ r) (List.prefix_append ..) (by simpa using hr)
      ((Disk.isDir_iff.mp hdir).resolve_left hlow)
  subst hr
  rw [List.append_nil] at hq
  have hplain := h.plain p f n hq (List.prefix_rfl)
  cases n with
  | dir => exact absurd hq (hn _ (List.prefix_append ..) (by simp))
  | file x => exact ⟨f, x, rfl, hplain, rfl⟩

/-- What is at the top of a sub-directory. -/
theorem exists_top (h : TreeDir m dir p) {q : Path} (hpre : p <+: q) (hne : q ≠ p)
    (hq : m.disk.at? q = some .dir) : ∃ f, m.disk.at? (p ++ [f]) = some .dir := by
  obtain ⟨r, rfl⟩ := hpre
  obtain ⟨f, r, rfl⟩ := List.exists_cons_of_ne_nil fun he : r = [] ↦ hne (by simp [he])
  refine ⟨f, ?_⟩
  by_cases hr : r = []
  · rwa [hr] at hq
  · -- below what is no directory there is nothing
    have hdir : m.disk.isDir (p ++ [f]) = true := by
      rw [← Bool.not_eq_false]
      intro hfalse
      rw [List.append_cons, h.tree.at?_eq_none hfalse hr] at hq
      cases hq
    exact (Disk.isDir_iff.mp hdir).resolve_left (by simp)

end TreeDir

/-- Each of the things that are matched has its match. -/
theorem exists_of_forall₂ {α β : Type} {R : α → β → Prop} {l : List α} {l' : List β}
    (h : List.Forall₂ R l l') {a : α} (ha : a ∈ l) : ∃ b ∈ l', R a b := by
  induction h with
  | nil => cases ha
  | cons hab _ ih =>
    rcases List.mem_cons.mp ha with rfl | ha
    · exact ⟨_, List.mem_cons_self, hab⟩
    · obtain ⟨b, hb, hR⟩ := ih ha
      exact ⟨b, List.mem_cons_of_mem _ hb, hR⟩

section Lists

variable {h : FileHost} {p : Path} {es : List FileData} {count : Nat → Nat}

/-- A directory has no size. -/
theorem listEntry_dir (ht : TreeDir h.machine h.syncDir p) {f : Name}
    (hf : h.machine.disk.at? (p ++ [f]) = some .dir) :
    h.listEntry (p ++ [f]) = .error .filesystemError := by
  have hplain := ht.plain p f _ hf List.prefix_rfl
  obtain ⟨s, hs⟩ := ht.trailing
  have hres : h.machine.resolve (h.syncDir ++ f) = some (p ++ [f]) := by
    have hr := ht.resolves
    rw [hs] at hr
    rw [hs, List.append_assoc, List.singleton_append]
    exact Machine.resolve_plain hr hplain
  have hex := Machine.exists_of_resolve hres hf
  have hstat : h.machine.stat (h.syncDir ++ f) = none := by
    rw [Machine.stat, hres, Option.bind_some, hf]
  rw [FileHost.listEntry, List.getLast?_concat, Option.getD_some, fileInfo, if_pos hex, hstat]
  rfl

/-- A tree that can be listed has no sub-directories. -/
theorem noSubdirs_of_listed (ht : TreeDir h.machine h.syncDir p)
    (hes : h.getFileInfoList = .ok es) :
    NoSubdirs h.machine p := by
  intro q hpre hne hq
  obtain ⟨f, hf⟩ := ht.exists_top hpre hne hq
  have hmem : p ++ [f] ∈ h.machine.order.arrange (h.machine.entriesBelow p) :=
    (h.machine.order.perm _).mem_iff.mpr
      (Machine.mem_entriesBelow.mpr ⟨⟨_, hf⟩, List.prefix_append .., by simp⟩)
  obtain ⟨x, hx⟩ := mapM_error hmem (listEntry_dir ht hf)
  rw [FileHost.getFileInfoList, Machine.listRecursive, ht.resolves] at hes
  dsimp only at hes
  split at hes
  · rename_i entries hentries
    split at hentries
    · cases hentries
      rw [hx] at hes
      cases hes
    · cases hentries
  · cases hes

/-- The listing of a flat directory. -/
theorem listsFiles_iff (hd : FlatDir h.machine h.syncDir p) :
    ListsFiles h.machine p count ((FlatDir.names h.machine p).map (FileHost.entryOf (h.view p))) ↔
      CountsBelow h.machine p count := by
  have hentry : ∀ f x, h.machine.view p f = some x →
      FileHost.entryOf (h.view p) f = ⟨⟨f, x.size, x.modifiedTime⟩, listedCount x.size⟩ := by
    intro f x hx
    have hx' : h.view p f = some x := hx
    simp [FileHost.entryOf, infoOf, Store.size, Store.modifiedTime, hx']
  constructor
  · rintro ⟨qs, -, hmem, hall⟩ q x hq
    obtain ⟨e, he, x', hx', hfile, hcount⟩ := exists_of_forall₂ hall ((hmem q).mpr ⟨x, hq⟩)
    obtain ⟨f, hf, rfl⟩ := List.mem_map.mp he
    obtain ⟨g, y, rfl, -, hnode⟩ := hd.flat q _ hq.2.2 hq.1 (Ne.symm hq.2.1)
    cases hnode
    have hview := Machine.view_eq_some.mpr hq.2.2
    -- the entry bears the name of the file
    have hname : f = g := by
      have hn := congrArg FileInfo.name hfile
      rwa [List.getLast?_concat, Option.getD_some] at hn
    rw [hname, hentry g x hview] at hcount
    have hsame : x' = x := by
      have hat := hx'.2.2.symm.trans hq.2.2
      simpa using hat
    rwa [hsame] at hcount
  · intro hcount
    refine ⟨(FlatDir.names h.machine p).map fun f ↦ p ++ [f], ?_, fun q ↦ ?_, ?_⟩
    · exact hd.names_nodup.map fun f g hfg ↦ by simpa using hfg
    · constructor
      · intro hq
        obtain ⟨f, hf, rfl⟩ := List.mem_map.mp hq
        obtain ⟨x, hx⟩ := hd.mem_names.mp hf
        exact ⟨x, List.prefix_append .., by simp, Machine.view_eq_some.mp hx⟩
      · rintro ⟨x, hpre, hne, hx⟩
        obtain ⟨f, y, rfl, -, hnode⟩ := hd.flat q _ hx hpre (Ne.symm hne)
        exact List.mem_map.mpr ⟨f, hd.mem_names.mpr ⟨x, Machine.view_eq_some.mpr hx⟩, rfl⟩
    · rw [List.forall₂_map_left_iff, List.forall₂_map_right_iff, List.forall₂_same]
      intro f hf
      obtain ⟨x, hx⟩ := hd.mem_names.mp hf
      have hbelow : FileBelow h.machine p (p ++ [f]) x :=
        ⟨List.prefix_append .., by simp, Machine.view_eq_some.mp hx⟩
      rw [hentry f x hx, List.getLast?_concat, Option.getD_some]
      exact ⟨x, hbelow, rfl, hcount _ x hbelow⟩

/-- **A listing is exact** if there is no sub-directory and every count is right, and only then. -/
theorem lists_iff (ht : TreeDir h.machine h.syncDir p) :
    (∃ es, h.getFileInfoList = .ok es ∧ ListsFiles h.machine p count es) ↔
      NoSubdirs h.machine p ∧ CountsBelow h.machine p count := by
  constructor
  · rintro ⟨es, hes, hlists⟩
    have hn := noSubdirs_of_listed ht hes
    have hd := ht.flat hn
    rw [FileHost.getFileInfoList_eq hd] at hes
    cases hes
    exact ⟨hn, (listsFiles_iff hd).mp hlists⟩
  · rintro ⟨hn, hcount⟩
    have hd := ht.flat hn
    exact ⟨_, FileHost.getFileInfoList_eq hd, (listsFiles_iff hd).mpr hcount⟩

end Lists

/-! ## Which sizes are counted right

The arithmetic of the count, and the law. -/

/-- As many packets as the bytes of a file fill, the last one perhaps not wholly. -/
def packetsFor (size : Nat) : Nat := (size + (packetSize - 1)) / packetSize

/-- The sizes that a listing counts right: those whose float is in the same packet, as long as the
packets can be numbered in 32 bits. -/
def ListsRight (size : Nat) : Prop :=
  size = 0 ∨ RoundsInto 24 (packetSize * ((size - 1) / packetSize)) packetSize size ∧
    size ≤ packetSize * (2 ^ 32 - 1)

theorem packetsFor_lt_iff (size : Nat) :
    packetsFor size < 2 ^ 32 ↔ size ≤ packetSize * (2 ^ 32 - 1) := by
  rw [packetsFor, packetSize_eq]
  omega

theorem packetsFor_eq_succ {size : Nat} (h : size ≠ 0) :
    packetsFor size = (size - 1) / packetSize + 1 := by
  rw [packetsFor, packetSize_eq]
  omega

theorem countPackets_eq_packetsFor_iff {size : Nat} (h : size ≠ 0) :
    countPackets size = packetsFor size ↔
      RoundsInto 24 (packetSize * ((size - 1) / packetSize)) packetSize size := by
  have hmod := Nat.mod_lt (size - 1) (by decide : 0 < packetSize)
  have hdiv := Nat.div_add_mod (size - 1) packetSize
  rw [packetsFor_eq_succ h, countPackets, ceil_eq_succ_iff]
  exact roundsInto_iff packetSize_pow (Nat.dvd_mul_right ..) (by omega) (by omega)

theorem listedCount_iff {size : Nat} (h : size < 2 ^ 64) :
    (listedCount size).toNat = packetsFor size ↔ ListsRight size := by
  by_cases hzero : size = 0
  · subst hzero
    exact ⟨fun _ ↦ .inl rfl, fun _ ↦ by rw [listedCount_zero]; rfl⟩
  · rw [ListsRight, or_iff_right hzero, ← countPackets_eq_packetsFor_iff hzero, ← packetsFor_lt_iff,
      listedCount, UInt32.toNat_ofNat']
    have hle := countPackets_le h
    have hsucc := packetsFor_eq_succ hzero
    rw [packetSize_eq] at hle hsucc
    omega

/-- Below the 24 bits of a float all sizes are counted right. -/
theorem listsRight_of_lt {size : Nat} (h : size < 2 ^ 24) : ListsRight size := by
  refine (listedCount_iff (Nat.lt_trans h (by decide))).mp ?_
  rw [listedCount, countPackets_of_lt h, packetsFor, UInt32.toNat_ofNat', packetSize_eq]
  omega

/-- **When the listing of a tree is exact.** -/
theorem tree_listed_iff {h : FileHost} {p : Path} (ht : TreeDir h.machine h.syncDir p) :
    (∃ es, h.getFileInfoList = .ok es ∧ ListsFiles h.machine p packetsFor es) ↔
      NoSubdirs h.machine p ∧ ∀ q x, FileBelow h.machine p q x → ListsRight x.size := by
  rw [lists_iff ht]
  refine and_congr_right fun _ ↦ forall_congr' fun q ↦ forall_congr' fun x ↦ ?_
  exact imp_congr_right fun _ ↦ listedCount_iff x.contents.fits

/-- A tree given by its nodes. -/
theorem treeDir_ofList {nodes : List (Path × Node)} {clock : Nat → Int} {order : DirOrder}
    {s : Name} {p : Path}
    (hres : (⟨.ofList nodes, [], clock, order⟩ : Machine).resolve (s ++ ['/']) = some p)
    (htree : ∀ n ∈ nodes, (Disk.ofList nodes).isDir n.1.dropLast = true)
    (hplain : ∀ n ∈ nodes, ∀ c ∈ n.1, Plain c) (hnet : s ≠ ['/']) :
    TreeDir ⟨.ofList nodes, [], clock, order⟩ (s ++ ['/']) p where
  trailing := ⟨s, rfl⟩
  resolves := hres
  ne_net he := hnet ((List.append_left_inj ['/']).mp he)
  tree := Disk.isTree_ofList htree
  plain _ _ _ hn _ := hplain _ (Disk.mem_of_at?_ofList hn) _ (by simp)

/-- A machine with a directory `/d`, and these nodes. -/
def treeMachine (nodes : List (Path × Node)) : Machine where
  disk := .ofList (nodes ++ [([['d']], .dir)])
  cwd := []
  clock := Nat.cast
  order := .asStored

/-- A directory in which there is a directory, and in that a file. -/
def nested : List (Path × Node) :=
  [([['d'], ['s'], ['f']], .file ⟨.threeBytes, 0⟩), ([['d'], ['s']], .dir)]

/-- Two files in a directory, one of them empty. -/
def flatNodes : List (Path × Node) :=
  [([['d'], ['f']], .file ⟨.threeBytes, 0⟩), ([['d'], ['g']], .file ⟨.empty, 5⟩)]

/-- A host whose sync directory is `/d`, with these nodes. -/
def treeOf (nodes : List (Path × Node)) : FileHost where
  machine := treeMachine nodes
  syncDir := ['/', 'd', '/']

/-- A sub-directory cannot be listed. -/
theorem subdirectory_not_listed : ¬ ∀ (h : FileHost) (p : Path), TreeDir h.machine h.syncDir p →
    ∃ es, h.getFileInfoList = .ok es ∧ ListsFiles h.machine p packetsFor es := by
  intro hall
  have htree : TreeDir (treeMachine nested) ['/', 'd', '/'] [['d']] :=
    treeDir_ofList (s := ['/', 'd']) rfl (by decide) (by decide) (by decide)
  obtain ⟨es, hes, -⟩ := hall (treeOf nested) [['d']] htree
  exact noSubdirs_of_listed htree hes [['d'], ['s']] (by decide) (by decide) rfl

/-- A directory with two small files is listed exactly. -/
theorem small_files_listed :
    ∃ es, (treeOf flatNodes).getFileInfoList = .ok es ∧
      ListsFiles (treeOf flatNodes).machine [['d']] packetsFor es := by
  refine (tree_listed_iff (h := treeOf flatNodes) (p := [['d']])
    (treeDir_ofList (s := ['/', 'd']) rfl (by decide) (by decide) (by decide))).mpr
    ⟨fun q _ hne hq ↦ ?_, fun q x hx ↦ ?_⟩
  · have hmem := Disk.mem_of_at?_ofList hq
    simp [flatNodes, hne] at hmem
  · have hmem := Disk.mem_of_at?_ofList hx.2.2
    simp only [flatNodes, List.cons_append, List.nil_append, List.mem_cons, Prod.mk.injEq,
      Node.file.injEq, reduceCtorEq, and_false, List.not_mem_nil, or_false] at hmem
    rcases hmem with ⟨-, rfl⟩ | ⟨-, rfl⟩ <;> exact listsRight_of_lt (by decide)

end Bropdox
