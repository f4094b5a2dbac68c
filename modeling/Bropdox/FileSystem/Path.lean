import Mathlib.Algebra.Group.Nat.Defs
import Mathlib.Data.List.AList
import Mathlib.Data.List.Infix

/-!
# Paths and disks

A disk is a finite map from paths to nodes, a path being the list of its components.  A file name is
a string, though, and what it names depends on the disk.

## What is here

* `Contents`, `File`, `Node` and `Disk` are what there is on a disk, with `Disk.at?`, `Disk.isDir`,
  `Disk.set` and `Disk.erase` and what they have to do with each other.
* `Disk.walk` follows a name component by component the way the kernel does, demanding at every step
  that what it stands on is a directory, skipping empty components and `.`, and going up at `..`.
  It depends on the directories only (`walk_congr`).
* `IsTree` says that everything is in a directory.
* `Plain` are the names that can be entries of a directory, and `filename` the last component of a
  path string as Boost.Filesystem gives it.

There are no symbolic links and no permissions here.
-/

set_option autoImplicit false

namespace FileSystem

/-- A name or a path string. -/
abbrev Name := List Char

/-- A path, as the list of its components from the root. -/
abbrev Path := List Name

/-- The contents of a file: bytes whose number fits the 64 bits that a file size has. -/
@[ext] structure Contents where
  /-- The bytes. -/
  bytes : List UInt8
  /-- The number of the bytes can be counted. -/
  fits : bytes.length < 2 ^ 64
deriving DecidableEq

/-- A file of no bytes. -/
def Contents.empty : Contents := ⟨[], Nat.two_pow_pos 64⟩

/-- A file of one byte. -/
def Contents.single (b : UInt8) : Contents := ⟨[b], Nat.one_lt_two_pow (by decide)⟩

/-- A file of three bytes. -/
def Contents.threeBytes : Contents := ⟨[1, 2, 3], Nat.lt_trans (by decide : 3 < 2 ^ 2) (by decide)⟩

/-- A regular file: its contents and when it was last written. -/
structure File where
  /-- The contents. -/
  contents : Contents
  /-- The time of the last write. -/
  modifiedTime : Int
deriving DecidableEq

/-- The size of a file in bytes. -/
def File.size (x : File) : Nat := x.contents.bytes.length

/-- What a path may lead to. -/
inductive Node
  /-- A directory. -/
  | dir
  /-- A regular file. -/
  | file (x : File)
deriving DecidableEq

/-- A disk: a finite map from paths to nodes.  The root is a directory without being listed. -/
structure Disk where
  /-- The nodes. -/
  nodes : AList fun _ : Path ↦ Node
deriving DecidableEq

namespace Disk

/-- What is at a path. -/
def at? (d : Disk) (p : Path) : Option Node := d.nodes.lookup p

/-- Whether a path leads to a directory. -/
def isDir (d : Disk) (p : Path) : Bool := p.isEmpty || d.at? p == some .dir

/-- Put a node at a path. -/
def set (d : Disk) (p : Path) (n : Node) : Disk := ⟨d.nodes.insert p n⟩

/-- Take away what is at a path. -/
def erase (d : Disk) (p : Path) : Disk := ⟨d.nodes.erase p⟩

@[simp] theorem at?_set_self (d : Disk) (p : Path) (n : Node) : (d.set p n).at? p = some n :=
  AList.lookup_insert _

theorem at?_set_of_ne (d : Disk) {p q : Path} (n : Node) (h : q ≠ p) :
    (d.set p n).at? q = d.at? q :=
  AList.lookup_insert_ne h

@[simp] theorem at?_erase_self (d : Disk) (p : Path) : (d.erase p).at? p = none :=
  AList.lookup_erase _ _

theorem at?_erase_of_ne (d : Disk) {p q : Path} (h : q ≠ p) : (d.erase p).at? q = d.at? q :=
  AList.lookup_erase_ne h

/-- The disk with these nodes; of two at one path the first counts. -/
def ofList (nodes : List (Path × Node)) : Disk :=
  nodes.foldr (fun n d ↦ d.set n.1 n.2) ⟨∅⟩

theorem mem_of_at?_ofList {nodes : List (Path × Node)} {p : Path} {n : Node}
    (h : (ofList nodes).at? p = some n) : (p, n) ∈ nodes := by
  induction nodes with
  | nil => simp [ofList, at?] at h
  | cons m nodes ih =>
    rw [ofList, List.foldr_cons, ← ofList] at h
    by_cases hp : p = m.1
    · subst hp
      rw [at?_set_self] at h
      cases h
      exact List.mem_cons_self
    · rw [at?_set_of_ne _ _ hp] at h
      exact List.mem_cons_of_mem _ (ih h)

theorem exists_at?_ofList {nodes : List (Path × Node)} {p : Path} {n : Node}
    (h : (p, n) ∈ nodes) : ∃ n', (ofList nodes).at? p = some n' := by
  induction nodes with
  | nil => cases h
  | cons m nodes ih =>
    rw [ofList, List.foldr_cons, ← ofList]
    by_cases hp : p = m.1
    · exact ⟨m.2, hp ▸ at?_set_self ..⟩
    · rw [at?_set_of_ne _ _ hp]
      rcases List.mem_cons.mp h with rfl | h
      · exact absurd rfl hp
      · exact ih h

theorem isDir_iff {d : Disk} {p : Path} : d.isDir p = true ↔ p = [] ∨ d.at? p = some .dir := by
  simp [isDir]

theorem isDir_congr {d d' : Disk} {p : Path} (h : d'.at? p = d.at? p) : d'.isDir p = d.isDir p := by
  rw [isDir, isDir, h]

/-- Writing a file where there is no directory leaves the directories as they were. -/
theorem isDir_set_file {d : Disk} {p : Path} (hp : d.isDir p = false) (x : File) (q : Path) :
    (d.set p (.file x)).isDir q = d.isDir q := by
  by_cases hq : q = p
  · subst hq
    rw [isDir, Bool.or_eq_false_iff] at hp
    simp [isDir, hp.1, hp.2]
  · exact isDir_congr (at?_set_of_ne d _ hq)

/-- Removing a file leaves the directories as they were. -/
theorem isDir_erase_file {d : Disk} {p : Path} {x : File} (hp : d.at? p = some (.file x))
    (q : Path) : (d.erase p).isDir q = d.isDir q := by
  by_cases hq : q = p
  · subst hq
    simp [isDir, hp]
  · exact isDir_congr (at?_erase_of_ne d hq)

/-- Removing something makes no directory. -/
theorem isDir_of_erase {d : Disk} {p q : Path} (h : (d.erase p).isDir q = true) :
    d.isDir q = true := by
  rw [isDir_iff] at h ⊢
  by_cases hq : q = p
  · subst hq
    rw [at?_erase_self] at h
    exact h.imp id fun h ↦ by cases h
  · rwa [at?_erase_of_ne _ hq] at h

/-- Where one component leads from a directory. -/
def stepTo (cur : Path) (c : Name) : Path :=
  if c = [] ∨ c = ['.'] then cur else if c = ['.', '.'] then cur.dropLast else cur ++ [c]

/-- Follow the components of a name.  Everything but the end has to be a directory; the end need
not exist. -/
def walk (d : Disk) : Path → List Name → Option Path
  | cur, [] => some cur
  | cur, c :: cs => if d.isDir cur then walk d (stepTo cur c) cs else none

theorem walk_append (d : Disk) (cur : Path) (cs cs' : List Name) :
    d.walk cur (cs ++ cs') = (d.walk cur cs).bind fun p ↦ d.walk p cs' := by
  induction cs generalizing cur with
  | nil => rfl
  | cons c cs ih =>
    rw [List.cons_append, walk, walk]
    split
    · exact ih _
    · rfl

/-- The end of a walk depends on the directories of a disk only. -/
theorem walk_congr {d d' : Disk} (h : ∀ q, d'.isDir q = d.isDir q) (cur : Path)
    (cs : List Name) : d'.walk cur cs = d.walk cur cs := by
  induction cs generalizing cur with
  | nil => rfl
  | cons c cs ih => rw [walk, walk, h, ih]

/-- With more directories one comes to the same place, if one came there with fewer. -/
theorem walk_of_isDir {d d' : Disk} (h : ∀ q, d'.isDir q = true → d.isDir q = true) {cur p : Path}
    {cs : List Name} (hw : d'.walk cur cs = some p) : d.walk cur cs = some p := by
  induction cs generalizing cur with
  | nil => exact hw
  | cons c cs ih =>
    rw [walk] at hw ⊢
    split at hw
    · rename_i hd
      rw [if_pos (h cur hd)]
      exact ih hw
    · cases hw

/-! Disks without loose ends. -/

/-- Everything is in a directory. -/
def IsTree (d : Disk) : Prop := ∀ q c n, d.at? (q ++ [c]) = some n → d.isDir q = true

theorem isTree_ofList {nodes : List (Path × Node)}
    (h : ∀ n ∈ nodes, (ofList nodes).isDir n.1.dropLast = true) : (ofList nodes).IsTree := by
  intro q c n hn
  have hdir := h _ (mem_of_at?_ofList hn)
  rwa [List.dropLast_concat] at hdir

/-- Below what is not a directory there is nothing. -/
theorem IsTree.at?_eq_none {d : Disk} (h : d.IsTree) {p : Path} (hp : d.isDir p = false) {q : Path}
    (hq : q ≠ []) : d.at? (p ++ q) = none := by
  induction q using List.reverseRecOn with
  | nil => exact absurd rfl hq
  | append_singleton q c ih =>
    rw [← List.append_assoc, Option.eq_none_iff_forall_ne_some]
    intro n hn
    have hdir := h _ _ _ hn
    cases q with
    | nil => simp [hp] at hdir
    | cons b q =>
      rw [isDir_iff, ih (by simp)] at hdir
      simp at hdir

/-- A disk stays a tree when a directory is made, or a file is put where there is none, in a
directory. -/
theorem IsTree.set {d : Disk} (h : d.IsTree) {p : Path} (hp : d.isDir p = true) {c : Name}
    {n : Node} (hn : n = .dir ∨ d.isDir (p ++ [c]) = false) : (d.set (p ++ [c]) n).IsTree := by
  have hmono : ∀ q, d.isDir q = true → (d.set (p ++ [c]) n).isDir q = true := by
    intro q hq
    by_cases he : q = p ++ [c]
    · subst he
      rcases hn with rfl | hn
      · simp [isDir_iff]
      · rw [hn] at hq
        cases hq
    · rw [isDir_congr (at?_set_of_ne d n he)]
      exact hq
  intro q b x hx
  by_cases he : q ++ [b] = p ++ [c]
  · obtain ⟨rfl, -⟩ := List.append_inj' he rfl
    exact hmono q hp
  · rw [at?_set_of_ne _ _ he] at hx
    exact hmono q (h q b x hx)

end Disk

/-! ## Names

What can be read off a path string without looking at a disk. -/

/-- A name that can be an entry of a directory. -/
structure Plain (f : Name) : Prop where
  /-- The name is not empty. -/
  ne_nil : f ≠ []
  /-- The name has no separator. -/
  noSlash : '/' ∉ f
  /-- The name is not that of the directory itself. -/
  ne_dot : f ≠ ['.']
  /-- The name is not that of the parent directory. -/
  ne_dotdot : f ≠ ['.', '.']

instance (f : Name) : Decidable (Plain f) :=
  decidable_of_iff (f ≠ [] ∧ '/' ∉ f ∧ f ≠ ['.'] ∧ f ≠ ['.', '.'])
    ⟨fun h ↦ ⟨h.1, h.2.1, h.2.2.1, h.2.2.2⟩, fun h ↦ ⟨h.1, h.2, h.3, h.4⟩⟩

/-- Whether a name starts at the root. -/
def isAbsolute (s : Name) : Bool := s.head? == some '/'

/-- A path string without the separators it ends in. -/
def chopped (s : Name) : Name := (s.reverse.dropWhile (· == '/')).reverse

/-- Whether a path string that ends in a separator ends in the root: there is nothing but
separators, or, behind two of them, a single component, which Boost takes for the name of a net. -/
def endsInRoot (s : Name) : Bool :=
  match chopped s with
  | [] => true
  | '/' :: '/' :: c => !c.contains '/'
  | _ => false

/-- The last component of a path string, as `path::filename` of Boost.Filesystem 3 gives it: `.`
after a trailing separator, `/` for the root, and the whole of a string that is only the name of a
net. -/
def filename (s : Name) : Name :=
  if s = ['/', '/'] then s
  else match (s.splitOn '/').getLast? with
  | some [] => if s = [] then [] else if endsInRoot s then ['/'] else ['.']
  | some c => if s = '/' :: '/' :: c then s else c
  | none => []

/-- The component that a path string ends in, whether or not separators follow. -/
def lastComponent (s : Name) : Name := ((chopped s).splitOn '/').getLast?.getD []

theorem splitOn_plain {f : Name} (h : '/' ∉ f) : f.splitOn '/' = [f] :=
  List.splitOn_eq_singleton h

theorem splitOn_slash (s f : Name) :
    (s ++ '/' :: f).splitOn '/' = s.splitOn '/' ++ f.splitOn '/' :=
  List.splitOn_append_cons_self s f

/-- A list can be cut at the last of the places where something stands. -/
theorem exists_last_cut {α : Type} {a : α} {l : List α} (h : a ∈ l) :
    ∃ s t, l = s ++ a :: t ∧ a ∉ t := by
  obtain ⟨as, bs, hsplit, hnot⟩ := List.eq_append_cons_of_mem (List.mem_reverse.mpr h)
  refine ⟨bs.reverse, as.reverse, ?_, fun h ↦ hnot (List.mem_reverse.mp h)⟩
  rw [← List.reverse_reverse l, hsplit, List.reverse_append, List.reverse_cons, List.append_assoc,
    List.singleton_append]

/-- A string between separators has none itself. -/
theorem noSlash_of_mem_splitOn {s c : Name} (h : c ∈ s.splitOn '/') : '/' ∉ c := by
  induction s generalizing c with
  | nil =>
    obtain rfl := List.mem_singleton.mp h
    exact List.not_mem_nil
  | cons x s ih =>
    rw [List.splitOn_cons_eq_if_modifyHead] at h
    split at h
    · rcases List.mem_cons.mp h with rfl | h
      · exact List.not_mem_nil
      · exact ih h
    · rename_i hx
      obtain ⟨d, ds, hds⟩ := List.exists_cons_of_ne_nil (List.splitOn_ne_nil '/' s)
      rw [hds] at h ih
      rcases List.mem_cons.mp h with rfl | h
      · rw [List.mem_cons, not_or]
        exact ⟨fun he ↦ hx (he ▸ beq_self_eq_true _), ih List.mem_cons_self⟩
      · exact ih (List.mem_cons_of_mem _ h)

/-- The last component behind a separator, in a string that is not the name of a net. -/
theorem filename_of_getLast? {s c : Name} (hl : (s.splitOn '/').getLast? = some c) (hc : c ≠ [])
    (hnet : s ≠ '/' :: '/' :: c) : filename s = c := by
  have htwo : s ≠ ['/', '/'] := by
    rintro rfl
    rw [show (['/', '/'] : Name).splitOn '/' = [[], [], []] from rfl, List.getLast?_cons_cons,
      List.getLast?_cons_cons, List.getLast?_singleton, Option.some_inj] at hl
    exact hc hl.symm
  rw [filename, if_neg htwo, hl]
  obtain ⟨b, c, rfl⟩ := List.exists_cons_of_ne_nil hc
  exact if_neg hnet

theorem isAbsolute_append {s : Name} (h : isAbsolute s = true) (f : Name) :
    isAbsolute (s ++ f) = true := by
  cases s with
  | nil => cases h
  | cons c cs => exact h

theorem Plain.isAbsolute {f : Name} (h : Plain f) : isAbsolute f = false := by
  cases f with
  | nil => rfl
  | cons c cs =>
    have hc : c ≠ '/' := fun e ↦ h.noSlash (by simp [e])
    simp [FileSystem.isAbsolute, hc]

theorem Plain.filename_slash {f : Name} (h : Plain f) {s : Name} (hs : s ≠ ['/']) :
    filename (s ++ '/' :: f) = f := by
  have hl : ((s ++ '/' :: f).splitOn '/').getLast? = some f := by
    rw [splitOn_slash, splitOn_plain h.noSlash, List.getLast?_concat]
  refine filename_of_getLast? hl h.ne_nil fun hnet ↦ hs ?_
  exact List.append_cancel_right (hnet.trans rfl : s ++ '/' :: f = ['/'] ++ '/' :: f)

theorem Plain.stepTo {f : Name} (h : Plain f) (p : Path) : Disk.stepTo p f = p ++ [f] := by
  simp [Disk.stepTo, h.ne_nil, h.ne_dot, h.ne_dotdot]

end FileSystem
