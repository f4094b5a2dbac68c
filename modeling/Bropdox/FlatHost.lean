import Bropdox.Chunks
import Bropdox.Replica

/-!
# The file handler on a flat directory

On a flat sync directory (`FlatDir`) every member function of the file handler is what it means to
be on the store of that directory.  Below, `f` is always the name of a file of the store, and the
string the function is given is one that leads to it: the plain name, or for `get_file_info` and its
callers an absolute path with that last component.

## What is here

* `mapM_ok`, `mapM_error` and `exists_mapM_iff` are about loops that may throw.
* `soughtName` is the name that is looked for, and `infoOf` and `entryOf` are what is found in a
  store.
* `fileInfo_eq`, `checkFreshness_eq`, `getFileInfoList_eq`, `readFile_eq` and their neighbours are
  the functions that only look.  `Browsable` says in general when a listing comes to its end.
* `Mirrors` says of a host that its sync directory is flat and holds what a replica holds;
  `Mirrors.store` and `Mirrors.delete` are the two functions that write, which keep it and
  everything else (`SameSettings`).
* `ofFiles` and `blank` are hosts with nothing but one directory.
-/

set_option autoImplicit false

namespace Bropdox

open FileSystem

/-- The `file_info` of a file of a store: zeros for one that does not exist. -/
def infoOf (st : Store) (f : Name) : FileInfo := ⟨f, st.size f, st.modifiedTime f⟩

@[simp] theorem infoOf_name (st : Store) (f : Name) : (infoOf st f).name = f := rfl

/-- The file name `get_file_info` looks for in the sync directory. -/
def soughtName (s : Name) : Name := if isAbsolute s then filename s else s

theorem soughtName_plain {f : Name} (hf : Plain f) : soughtName f = f := by
  simp [soughtName, hf.isAbsolute]

/-! ## Loops over lists

What the loops of the listing and of the directory iterators come to. -/

/-- A loop in which nothing goes wrong. -/
theorem mapM_ok {γ δ : Type} {f : γ → Except Exn δ} {g : γ → δ} {es : List γ}
    (hall : ∀ e ∈ es, f e = .ok (g e)) : es.mapM f = .ok (es.map g) := by
  induction es with
  | nil => rfl
  | cons e es ih =>
    rw [List.mapM_cons, hall e List.mem_cons_self,
      ih fun e' he' ↦ hall e' (List.mem_cons_of_mem _ he')]
    rfl

/-- A loop in which something does. -/
theorem mapM_error {γ δ : Type} {f : γ → Except Exn δ} {x : Exn} {e : γ} {es : List γ}
    (he : e ∈ es) (hx : f e = .error x) : ∃ y, es.mapM f = .error y := by
  induction es with
  | nil => cases he
  | cons e' es ih =>
    rw [List.mapM_cons]
    cases hf : f e' with
    | error y => exact ⟨y, rfl⟩
    | ok v =>
      rcases List.mem_cons.mp he with rfl | he
      · rw [hx] at hf
        cases hf
      · obtain ⟨y, hy⟩ := ih he
        rw [hy]
        exact ⟨y, rfl⟩

/-- What a loop has made comes from somewhere. -/
theorem mem_of_mapM_ok {γ δ : Type} {f : γ → Except Exn δ} {es : List γ} {vs : List δ}
    (h : es.mapM f = .ok vs) {v : δ} (hv : v ∈ vs) : ∃ e ∈ es, f e = .ok v := by
  induction es generalizing vs with
  | nil =>
    cases h
    cases hv
  | cons e es ih =>
    rw [List.mapM_cons] at h
    cases he : f e with
    | error x =>
      rw [he] at h
      cases h
    | ok w =>
      rw [he] at h
      cases hws : es.mapM f with
      | error x =>
        rw [hws] at h
        cases h
      | ok ws =>
        rw [hws] at h
        cases h
        rcases List.mem_cons.mp hv with rfl | hv
        · exact ⟨e, List.mem_cons_self, he⟩
        · obtain ⟨e', he', hf⟩ := ih hws hv
          exact ⟨e', List.mem_cons_of_mem _ he', hf⟩

/-! ## The operations

The functions that look, through any string that leads to the file. -/

namespace FileHost

/-- A host with nothing but the directory `/d`, which is its sync directory, and files in it. -/
def ofFiles (clock : Nat → Int) (d : Name) (files : List (Name × File))
    (reported : Nat → Nat) : FileHost where
  machine := Machine.ofFiles clock [d] files
  syncDir := '/' :: d ++ ['/']
  reported := reported

variable {h : FileHost} {p : Path} {f s : Name} {x : File}

/-- The files of the sync directory. -/
def view (h : FileHost) (p : Path) : Store := h.machine.view p

theorem fileInfo_eq (hd : FlatDir h.machine h.syncDir p) (hf : Plain f) :
    fileInfo h.machine f h.syncDir = .ok (infoOf (h.view p) f) := by
  rw [fileInfo, hd.exists hf, hd.stat hf]
  cases hx : h.machine.view p f <;> simp [infoOf, view, Store.size, Store.modifiedTime, hx]

theorem getFileInfo_eq (hd : FlatDir h.machine h.syncDir p) (hs : soughtName s = f)
    (hf : Plain f) : h.getFileInfo s = .ok (infoOf (h.view p) f) := by
  rw [getFileInfo, ← soughtName, hs]
  exact fileInfo_eq hd hf

theorem checkFreshness_eq (hd : FlatDir h.machine h.syncDir p) {file : FileInfo}
    (hs : soughtName file.name = f) (hf : Plain f) :
    h.checkFreshness file = .ok (decide (file.modifiedTime > (h.view p).modifiedTime f)) := by
  rw [checkFreshness, getFileInfo_eq hd hs hf]
  rfl

/-- The entry a listing has for a file. -/
def entryOf (st : Store) (f : Name) : FileData := ⟨infoOf st f, listedCount (st.size f)⟩

theorem getFileInfoList_eq (hd : FlatDir h.machine h.syncDir p) :
    h.getFileInfoList = .ok ((FlatDir.names h.machine p).map (entryOf (h.view p))) := by
  rw [getFileInfoList, hd.list]
  refine (mapM_ok (g := fun q ↦ entryOf (h.view p) (q.getLast?.getD [])) fun q hq ↦ ?_).trans ?_
  · obtain ⟨f, hf, rfl⟩ := List.mem_map.mp hq
    obtain ⟨x, hx⟩ := hd.mem_names.mp hf
    rw [listEntry, List.getLast?_concat, Option.getD_some, fileInfo_eq hd (hd.plain hx)]
    rfl
  · simp [Function.comp_def]

/-- The listing comes to its end: the sync directory is a directory, and no name in it or below it
leads, in the sync directory, to a directory. -/
def Browsable (h : FileHost) : Prop :=
  ∃ r, h.machine.resolve h.syncDir = some r ∧ h.machine.disk.isDir r = true ∧
    ∀ q ∈ h.machine.entriesBelow r, h.machine.leadsToDir (h.syncDir ++ q.getLast?.getD []) = false

theorem readPath_plain (hd : FlatDir h.machine h.syncDir p) (hf : Plain f) :
    h.machine.resolve (h.readPath f) = some (p ++ [f]) := by
  rw [readPath, hf.isAbsolute]
  exact hd.resolve_doubled hf

/-- Reading a file, through any string that leads to it. -/
theorem readFile_eq (hd : FlatDir h.machine h.syncDir p)
    (hs : h.machine.resolve (h.readPath s) = some (p ++ [f])) (hx : h.view p f = some x) :
    h.readFile s = .ok ⟨h.reported x.size, packetsOf x.contents⟩ :=
  readFile_of_stat ((hd.stat_of_resolve hs).trans hx)

theorem readFile_none (hd : FlatDir h.machine h.syncDir p)
    (hs : h.machine.resolve (h.readPath s) = some (p ++ [f])) (hx : h.view p f = none) :
    h.readFile s = .error .fileDoesNotExist := by
  have hex : h.machine.exists (h.readPath s) = false := by
    rw [hd.exists_of_resolve hs]
    exact congrArg Option.isSome hx
  rw [readFile, hex]
  rfl

theorem writePath_eq (hs : soughtName s = f) : h.writePath s [] = h.syncDir ++ f := by
  rw [← hs, writePath, soughtName]
  split <;> rfl

/-- A host whose sync directory is flat and holds what the replica holds. -/
structure Mirrors (h : FileHost) (p : Path) (r : Replica) : Prop where
  /-- The directory is flat. -/
  flat : FlatDir h.machine h.syncDir p
  /-- The directory holds the files of the replica. -/
  view_eq : h.view p = r.store
  /-- The clock will show these times. -/
  clock_eq : h.machine.clock = r.clock

/-- What the operations on files leave as it is. -/
structure SameSettings (h s : FileHost) : Prop where
  /-- What `read_file` reports. -/
  reported : s.reported = h.reported
  /-- The sync directory. -/
  syncDir : s.syncDir = h.syncDir

theorem SameSettings.refl (h : FileHost) : h.SameSettings h := ⟨rfl, rfl⟩

theorem SameSettings.trans {h s s' : FileHost} (hs : h.SameSettings s) (hs' : s.SameSettings s') :
    h.SameSettings s' :=
  ⟨hs'.reported.trans hs.reported, hs'.syncDir.trans hs.syncDir⟩

theorem sameSettings_store (h : FileHost) (s path : Name) (packets : List Packet) :
    h.SameSettings (h.store s path packets) := ⟨rfl, rfl⟩

/-- The replica a host has in a directory. -/
def replica (h : FileHost) (p : Path) : Replica := ⟨h.view p, h.machine.clock⟩

section OfFiles

variable {clock : Nat → Int} {d : Name} {files : List (Name × File)} {reported : Nat → Nat}

theorem mem_of_replica_ofFiles
    (hx : ((ofFiles clock d files reported).replica [d]).store f = some x) : (f, x) ∈ files :=
  Machine.mem_of_view_ofFiles hx

theorem mirrors_ofFiles
    (hd : (ofFiles clock d files reported).machine.resolve ('/' :: d ++ ['/']) = some [d])
    (hfiles : ∀ f ∈ files, Plain f.1) :
    (ofFiles clock d files reported).Mirrors [d]
      ((ofFiles clock d files reported).replica [d]) := by
  refine ⟨FlatDir.ofFiles hd hfiles fun he ↦ ?_, rfl, rfl⟩
  -- two separators lead to the root
  obtain rfl : d = [] := by simpa using he
  have hroot : (ofFiles clock [] files reported).machine.resolve ['/', '/'] = some [] := rfl
  rw [List.cons_append, List.nil_append, hroot] at hd
  cases hd

end OfFiles

/-! ## The operations that write

Writing and deleting on a host that holds what a replica holds. -/

namespace Mirrors

variable {r : Replica}

/-- Putting a file in the directory saves it in the replica. -/
theorem put (hm : h.Mirrors p r) (hf : Plain f) (c : Contents) :
    ({ h with machine := h.machine.put (p ++ [f]) c } : FileHost).Mirrors p (r.save f c) := by
  refine ⟨hm.flat.put hf c, ?_, ?_⟩
  · rw [view, Machine.view_put, ← view, hm.view_eq, hm.clock_eq]
    rfl
  · simp only [Machine.put, Machine.tick, hm.clock_eq]
    rfl

/-- Erasing a file of the directory removes it from the replica. -/
theorem erase (hm : h.Mirrors p r) (hx : h.machine.view p f = some x) :
    ({ h with machine := { h.machine with disk := h.machine.disk.erase (p ++ [f]) } } :
      FileHost).Mirrors p (r.remove f) := by
  refine ⟨hm.flat.erase hx, ?_, hm.clock_eq⟩
  rw [view, Machine.view_erase, ← view, hm.view_eq]
  rfl

/-- Where there are no files, there is nothing to list. -/
theorem getFileInfoList_eq_nil (hm : h.Mirrors p r) (hr : ∀ f, r.store f = none) :
    h.getFileInfoList = .ok [] := by
  have hnil : FlatDir.names h.machine p = [] := by
    refine List.eq_nil_iff_forall_not_mem.mpr fun f hf ↦ ?_
    obtain ⟨x, hx⟩ := hm.flat.mem_names.mp hf
    have hnone : h.machine.view p f = none := (congrFun hm.view_eq f).trans (hr f)
    rw [hnone] at hx
    cases hx
  rw [FileHost.getFileInfoList_eq hm.flat, hnil, List.map_nil]

/-- **Storing the packets of a file saves it in the replica.** -/
theorem store (hm : h.Mirrors p r) (hs : soughtName s = f) (hf : Plain f) (c : Contents) :
    (h.store s [] (packetsOf c)).Mirrors p (r.save f c) := by
  have hwrite : h.store s [] (packetsOf c) = { h with machine := h.machine.put (p ++ [f]) c } := by
    rw [FileHost.store, writePath_eq hs, flatMap_packetsOf, hm.flat.write hf]
  rw [hwrite]
  exact hm.put hf c

/-- **Deleting a file removes it from the replica**, whether it was there or not. -/
theorem delete (hm : h.Mirrors p r) (hf : Plain f) :
    ∃ h', h.deleteFile f = .ok ((r.store f).isSome, h') ∧ h'.Mirrors p (r.remove f) ∧
      h.SameSettings h' := by
  have hv : h.machine.view p = r.store := hm.view_eq
  cases hx : r.store f with
  | none =>
    refine ⟨h, ?_, ⟨hm.flat, ?_, hm.clock_eq⟩, .refl h⟩
    · rw [deleteFile, hm.flat.exists hf, hv, hx]
      rfl
    · rw [hm.view_eq, Replica.remove, Store.remove_of_none hx]
  | some x =>
    have hvx : h.machine.view p f = some x := by rw [hv, hx]
    refine ⟨{ h with machine := { h.machine with disk := h.machine.disk.erase (p ++ [f]) } }, ?_,
      hm.erase hvx, ⟨rfl, rfl⟩⟩
    rw [deleteFile, hm.flat.exists hf, hv, hx, hm.flat.remove hvx]
    rfl

end Mirrors
end FileHost

/-- A host that has no files. -/
def blank (d : Name) : FileHost := .ofFiles Nat.cast d [] countPackets

end Bropdox
