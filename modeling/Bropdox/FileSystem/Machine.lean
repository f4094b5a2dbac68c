import Bropdox.FileSystem.Path

/-!
# The file operations of one host

A `Machine` is a disk, a working directory, a clock and an order in which directories are listed.
Its operations are the ones of the C++ streams and of Boost.Filesystem that a program sees through
path *strings*, with their error behaviour.

## What is here

* `resolve` says where a path string leads, and `exists`, `stat` and `leadsToDir` what is found
  there.
* `write`, `remove`, `copyFile` and `createDirectory` change the disk.  `none` is a
  `filesystem_error`, and writing through a stream that could not be opened does nothing at all.
  `exists_remove_iff` says what can be removed (`Removable`).
* `listRecursive` and `list` are the two directory iterators.
* `SameTree` says of two machines that path strings lead to the same places on both; writing keeps
  it, and the lemmas after it say for each operation what stays as it is (`at?_write_of_ne`,
  `remove_cases`).

The clock is the list of its readings that are still to come, one for each write.  Nothing is
assumed about them, so a theorem about a machine is about every clock; likewise for the order in
which a directory is listed, which a `DirOrder` leaves open.
-/

set_option autoImplicit false

namespace FileSystem

/-- The order in which the entries of a directory are enumerated: any rearrangement. -/
structure DirOrder where
  /-- The entries in the order they are visited. -/
  arrange : List Path → List Path
  /-- Every entry is visited exactly once. -/
  perm : ∀ l, (arrange l).Perm l

/-- The order the disk happens to keep its entries in. -/
def DirOrder.asStored : DirOrder := ⟨id, fun _ ↦ .rfl⟩

/-- A host with a file system. -/
structure Machine where
  /-- The disk. -/
  disk : Disk
  /-- The working directory. -/
  cwd : Path
  /-- The readings of the clock at the writes to come. -/
  clock : Nat → Int
  /-- The order of directory listings. -/
  order : DirOrder

namespace Machine

/-- Where a path string leads. -/
def resolve (m : Machine) (s : Name) : Option Path :=
  if s = [] then none
  else m.disk.walk (if isAbsolute s then [] else m.cwd) (s.splitOn '/')

/-- `exists` -/
def «exists» (m : Machine) (s : Name) : Bool :=
  match m.resolve s with
  | some p => m.disk.isDir p || (m.disk.at? p).isSome
  | none => false

/-- The regular file a path string names; `none` where `file_size` throws, for a directory or for
nothing at all. -/
def stat (m : Machine) (s : Name) : Option File :=
  match (m.resolve s).bind m.disk.at? with
  | some (.file x) => some x
  | _ => none

theorem exists_of_stat {m : Machine} {s : Name} {x : File} (h : m.stat s = some x) :
    m.exists s = true := by
  rw [stat] at h
  split at h
  · next y hy =>
    obtain ⟨p, hp, hn⟩ := Option.bind_eq_some_iff.mp hy
    simp [«exists», hp, hn]
  · cases h

/-- Whether a path string leads to something that is no regular file, so that `file_size` throws. -/
def leadsToDir (m : Machine) (s : Name) : Bool := m.exists s && (m.stat s).isNone

/-- The clock has moved on by one write. -/
def tick (m : Machine) : Machine := { m with clock := fun n ↦ m.clock (n + 1) }

/-- Put a file at a path, with the time it is now. -/
def put (m : Machine) (p : Path) (c : Contents) : Machine :=
  { m.tick with disk := m.disk.set p (.file ⟨c, m.clock 0⟩) }

/-- Open a stream for writing, which truncates, and write.  Where the stream cannot be opened, in a
missing directory or over an existing one, nothing happens; nor is there room for more bytes than a
file size can count. -/
def write (m : Machine) (s : Name) (bytes : List UInt8) : Machine :=
  match m.resolve s with
  | some p =>
    if m.disk.isDir p then m
    else if h : bytes.length < 2 ^ 64 then m.put p ⟨bytes, h⟩
    else m
  | none => m

theorem write_of_resolve {m : Machine} {s : Name} {p : Path} (hs : m.resolve s = some p)
    (hp : m.disk.isDir p = false) (c : Contents) : m.write s c.bytes = m.put p c := by
  rw [write, hs]
  simp only [hp, Bool.false_eq_true, if_false, dif_pos c.fits]

/-- Whether a path lies strictly below another one. -/
def below (p q : Path) : Bool := p.isPrefixOf q && p != q

/-- The paths of everything below a directory, as stored. -/
def entriesBelow (m : Machine) (p : Path) : List Path := m.disk.nodes.keys.filter (below p)

/-- `remove`: a file goes, and so does an empty directory, unless it is the root or the string ends
in `.` or `..`.  Separators at the end do no harm. -/
def remove (m : Machine) (s : Name) : Option Machine :=
  match m.resolve s with
  | none => some m
  | some p =>
    if p = [] then none
    else match m.disk.at? p with
      | some (.file _) => some { m with disk := m.disk.erase p }
      | some .dir =>
        if lastComponent s = ['.'] ∨ lastComponent s = ['.', '.'] ∨ m.entriesBelow p ≠ [] then none
        else some { m with disk := m.disk.erase p }
      | none => some m

/-- What a path string leads to can be removed: it is no directory, or an empty one that the string
does not name by dots. -/
def Removable (m : Machine) (s : Name) : Prop :=
  ∀ p, m.resolve s = some p → m.disk.isDir p = true →
    p ≠ [] ∧ lastComponent s ≠ ['.'] ∧ lastComponent s ≠ ['.', '.'] ∧ m.entriesBelow p = []

/-- `copy_file` with `overwrite_if_exists`.  The target is truncated before the source is read, so
that copying a file onto itself empties it. -/
def copyFile (m : Machine) (src dst : Name) : Option Machine :=
  match m.resolve src, m.stat src, m.resolve dst with
  | some p, some x, some q =>
    if m.disk.isDir q then none else some (m.put q (if p = q then ⟨[], by decide⟩ else x.contents))
  | _, _, _ => none

/-- `create_directory`, which does not mind separators at the end. -/
def createDirectory (m : Machine) (s : Name) : Option Machine :=
  if (m.resolve s).any m.disk.isDir then some m
  else match m.resolve (chopped s) with
    | some p =>
      match m.disk.at? p with
      | some _ => none
      | none => some { m with disk := m.disk.set p .dir }
    | none => none

/-- `recursive_directory_iterator`: everything below a directory, at any depth. -/
def listRecursive (m : Machine) (s : Name) : Option (List Path) :=
  match m.resolve s with
  | some p => if m.disk.isDir p then some (m.order.arrange (m.entriesBelow p)) else none
  | none => none

/-- `directory_iterator`: the entries of a directory. -/
def list (m : Machine) (s : Name) : Option (List Path) :=
  match m.resolve s with
  | some p =>
    if m.disk.isDir p then
      some (m.order.arrange ((m.entriesBelow p).filter fun q ↦ q.dropLast == p))
    else none
  | none => none

/-! ## What does not change

Path strings lead where they led as long as the directories are the same. -/

/-- Two machines with the same directories and the same working directory: path strings lead to the
same place on both. -/
structure SameTree (m m' : Machine) : Prop where
  /-- The working directory is the same. -/
  cwd : m'.cwd = m.cwd
  /-- The directories are the same. -/
  isDir : ∀ q, m'.disk.isDir q = m.disk.isDir q

theorem SameTree.rfl' (m : Machine) : SameTree m m := ⟨rfl, fun _ ↦ rfl⟩

theorem SameTree.trans {m m' m'' : Machine} (h : SameTree m m') (h' : SameTree m' m'') :
    SameTree m m'' :=
  ⟨h'.cwd.trans h.cwd, fun q ↦ (h'.isDir q).trans (h.isDir q)⟩

theorem SameTree.resolve {m m' : Machine} (h : SameTree m m') (s : Name) :
    m'.resolve s = m.resolve s := by
  rw [Machine.resolve, Machine.resolve, h.cwd, Disk.walk_congr h.isDir]

theorem sameTree_put {m : Machine} {p : Path} (hp : m.disk.isDir p = false) (c : Contents) :
    SameTree m (m.put p c) :=
  ⟨rfl, fun q ↦ Disk.isDir_set_file hp _ q⟩

/-- Writing makes no directory and removes none. -/
theorem sameTree_write (m : Machine) (s : Name) (bytes : List UInt8) :
    SameTree m (m.write s bytes) := by
  rw [write]
  cases m.resolve s with
  | none => exact .rfl' m
  | some p =>
    simp only
    split_ifs with hp hfits
    · exact .rfl' m
    · exact sameTree_put (Bool.eq_false_iff.mpr hp) _
    · exact .rfl' m

theorem exists_of_resolve {m : Machine} {s : Name} {p : Path} {n : Node} (hs : m.resolve s = some p)
    (hn : m.disk.at? p = some n) : m.exists s = true := by
  simp [«exists», hs, hn]

section Put

variable {m : Machine} {s : Name} {p : Path} (hp : m.disk.isDir p = false) (c : Contents)
include hp

/-- What has been put somewhere is found through every string that leads there. -/
theorem stat_put_self (hs : m.resolve s = some p) :
    (m.put p c).stat s = some ⟨c, m.clock 0⟩ := by
  rw [stat, (sameTree_put hp c).resolve, hs, Option.bind_some, put, Disk.at?_set_self]

end Put

theorem sameTree_erase {m : Machine} {p : Path} {x : File} (hp : m.disk.at? p = some (.file x)) :
    SameTree m { m with disk := m.disk.erase p } :=
  ⟨rfl, fun q ↦ Disk.isDir_erase_file hp q⟩

/-- Writing to where one string leads leaves what is elsewhere. -/
theorem at?_write_of_ne {m : Machine} {s : Name} {p : Path} (hs : m.resolve s ≠ some p)
    (bytes : List UInt8) : (m.write s bytes).disk.at? p = m.disk.at? p := by
  rw [write]
  cases hq : m.resolve s with
  | none => rfl
  | some q =>
    have hne : p ≠ q := fun he ↦ hs (he ▸ hq)
    simp only
    split_ifs
    · rfl
    · exact Disk.at?_set_of_ne _ _ hne
    · rfl

/-- All that `remove` does. -/
theorem remove_cases {m m' : Machine} {s : Name} (h : m.remove s = some m') :
    m' = m ∨ ∃ q, m.resolve s = some q ∧ m' = { m with disk := m.disk.erase q } := by
  rw [remove] at h
  split at h
  · cases h
    exact .inl rfl
  · rename_i q hq
    split at h
    · cases h
    · split at h
      · cases h
        exact .inr ⟨q, hq, rfl⟩
      · split at h
        · cases h
        · cases h
          exact .inr ⟨q, hq, rfl⟩
      · cases h
        exact .inl rfl

/-- Removing what one string leads to leaves what is elsewhere. -/
theorem at?_remove_of_ne {m m' : Machine} {s : Name} {p : Path} (h : m.remove s = some m')
    (hs : m.resolve s ≠ some p) : m'.disk.at? p = m.disk.at? p := by
  rcases remove_cases h with rfl | ⟨q, hq, rfl⟩
  · rfl
  · exact Disk.at?_erase_of_ne _ fun he ↦ hs (he ▸ hq)

/-- What is removed is missing on the way to other places, but leads nobody astray. -/
theorem resolve_of_remove {m m' : Machine} {s t : Name} {p : Path} (h : m.remove s = some m')
    (ht : m'.resolve t = some p) : m.resolve t = some p := by
  rcases remove_cases h with rfl | ⟨q, -, rfl⟩
  · exact ht
  · rw [resolve] at ht ⊢
    by_cases hnil : t = []
    · rw [if_pos hnil] at ht
      cases ht
    · rw [if_neg hnil] at ht ⊢
      exact Disk.walk_of_isDir (fun _ ↦ Disk.isDir_of_erase) ht

theorem mem_entriesBelow {m : Machine} {p q : Path} :
    q ∈ m.entriesBelow p ↔ (∃ n, m.disk.at? q = some n) ∧ p <+: q ∧ p ≠ q := by
  rw [entriesBelow, List.mem_filter, below, Bool.and_eq_true, bne_iff_ne,
    List.isPrefixOf_iff_prefix, ← AList.mem_keys, ← AList.lookup_isSome, Option.isSome_iff_exists]
  rfl

theorem entriesBelow_nodup (m : Machine) (p : Path) : (m.entriesBelow p).Nodup :=
  m.disk.nodes.keys_nodup.filter _

end Machine
end FileSystem
