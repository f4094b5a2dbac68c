import Bropdox.FileSystem.Machine
import Mathlib.Logic.Function.Basic

/-!
# A flat directory as a store

What a directory of regular files is *for* is a map from names to files.  This file says when a
directory is one, and what the operations of the file system do to the map.

## What is here

* `Store` is the map, with the two updates it has (`Store.save` and `Store.remove`), and
  `Machine.view` reads it off a machine.
* `FlatDir m dir p` says that the string `dir` names the directory at `p` with its trailing
  separator, and that nothing but plainly named files is below it.
* The lemmas on strings say where `dir ++ f` leads, for any string `dir` with a separator at its
  end.
* Under `FlatDir` every file operation on `dir ++ f` is the store operation on `f`, and `FlatDir`
  survives it.  The operations are also given for any other string that leads to the same place.
* `names` and `listing` are the files of the directory in the order in which they are listed.
-/

set_option autoImplicit false

namespace FileSystem

/-- A directory of regular files, seen as a map. -/
abbrev Store := Name → Option File

namespace Store

/-- The time of a file, 0 when there is none. -/
def modifiedTime (st : Store) (f : Name) : Int := ((st f).map File.modifiedTime).getD 0

/-- The size of a file, 0 when there is none. -/
def size (st : Store) (f : Name) : Nat := ((st f).map File.size).getD 0

/-- Store a file. -/
def save (st : Store) (f : Name) (x : File) : Store := Function.update st f (some x)

/-- Remove a file. -/
def remove (st : Store) (f : Name) : Store := Function.update st f none

@[simp] theorem save_self (st : Store) (f : Name) (x : File) : st.save f x f = some x :=
  Function.update_self ..

@[simp] theorem save_of_ne (st : Store) {f g : Name} (x : File) (h : g ≠ f) :
    st.save f x g = st g :=
  Function.update_of_ne h ..

@[simp] theorem remove_self (st : Store) (f : Name) : st.remove f f = none :=
  Function.update_self ..

theorem remove_of_none {st : Store} {f : Name} (h : st f = none) : st.remove f = st := by
  rw [remove, ← h, Function.update_eq_self]

@[simp] theorem remove_of_ne (st : Store) {f g : Name} (h : g ≠ f) : st.remove f g = st g :=
  Function.update_of_ne h ..

@[simp] theorem modifiedTime_save_self (st : Store) (f : Name) (x : File) :
    (st.save f x).modifiedTime f = x.modifiedTime := by
  rw [modifiedTime, save_self]
  rfl

theorem modifiedTime_save_of_ne (st : Store) {f g : Name} (x : File) (h : g ≠ f) :
    (st.save f x).modifiedTime g = st.modifiedTime g := by
  rw [modifiedTime, save_of_ne _ _ h, modifiedTime]

theorem modifiedTime_remove_of_ne (st : Store) {f g : Name} (h : g ≠ f) :
    (st.remove f).modifiedTime g = st.modifiedTime g := by
  rw [modifiedTime, remove_of_ne _ h, modifiedTime]

end Store

namespace Machine

/-- The regular files directly in a directory. -/
def view (m : Machine) (p : Path) : Store := fun f ↦
  match m.disk.at? (p ++ [f]) with
  | some (.file x) => some x
  | _ => none

theorem view_eq_some {m : Machine} {p : Path} {f : Name} {x : File} :
    m.view p f = some x ↔ m.disk.at? (p ++ [f]) = some (.file x) := by
  rw [view]
  split
  · next y hy => simp [hy]
  · next hne => simpa using fun h ↦ hne x h

/-- **Writing a file is saving it in the store.** -/
theorem view_put (m : Machine) (p : Path) (f : Name) (c : Contents) :
    (m.put (p ++ [f]) c).view p = (m.view p).save f ⟨c, m.clock 0⟩ := by
  funext g
  by_cases hg : g = f
  · subst hg
    simp [view, put]
  · have hne : p ++ [g] ≠ p ++ [f] := by simpa using hg
    rw [Store.save_of_ne _ _ hg, view, view]
    simp only [put]
    rw [Disk.at?_set_of_ne _ _ hne]

/-- **Erasing a file is removing it from the store.** -/
theorem view_erase (m : Machine) (p : Path) (f : Name) :
    ({ m with disk := m.disk.erase (p ++ [f]) } : Machine).view p = (m.view p).remove f := by
  funext g
  by_cases hg : g = f
  · subst hg
    simp [view]
  · have hne : p ++ [g] ≠ p ++ [f] := by simpa using hg
    rw [Store.remove_of_ne _ hg, view, view]
    simp only
    rw [Disk.at?_erase_of_ne _ hne]

/-- A machine on which there is nothing but one directory, with some files in it. -/
def ofFiles (clock : Nat → Int) (p : Path) (files : List (Name × File)) : Machine where
  disk := Disk.ofList (files.map (fun f ↦ (p ++ [f.1], .file f.2)) ++ p.inits.map (·, .dir))
  cwd := []
  clock := clock
  order := .asStored

theorem mem_of_view_ofFiles {clock : Nat → Int} {p : Path} {files : List (Name × File)} {f : Name}
    {x : File} (h : (ofFiles clock p files).view p f = some x) : (f, x) ∈ files := by
  rcases List.mem_append.mp (Disk.mem_of_at?_ofList (view_eq_some.mp h)) with hmem | hmem
  · obtain ⟨g, hg, he⟩ := List.mem_map.mp hmem
    obtain ⟨hname, hfile⟩ := Prod.mk.inj he
    obtain rfl : g.1 = f := by simpa using hname
    obtain rfl : g.2 = x := by simpa using hfile
    exact hg
  · obtain ⟨r, -, he⟩ := List.mem_map.mp hmem
    cases he

theorem exists_view_ofFiles {clock : Nat → Int} {p : Path} {files : List (Name × File)} {f : Name}
    {x : File} (h : (f, x) ∈ files) : ∃ y, (ofFiles clock p files).view p f = some y := by
  obtain ⟨n, hn⟩ : ∃ n, (ofFiles clock p files).disk.at? (p ++ [f]) = some n :=
    Disk.exists_at?_ofList (List.mem_append_left _ (List.mem_map.mpr ⟨_, h, rfl⟩))
  rcases List.mem_append.mp (Disk.mem_of_at?_ofList hn) with hmem | hmem
  · obtain ⟨g, -, he⟩ := List.mem_map.mp hmem
    obtain ⟨-, rfl⟩ := Prod.mk.inj he
    exact ⟨g.2, view_eq_some.mpr hn⟩
  · obtain ⟨r, hr, he⟩ := List.mem_map.mp hmem
    obtain ⟨rfl, -⟩ := Prod.mk.inj he
    exact absurd ((List.mem_inits ..).mp hr).length_le (by simp)

/-! ## Strings that name something in a directory

A string with a separator at its end leads to a directory, and a plain name behind it to an entry of
that directory. -/

theorem resolve_slash (m : Machine) (s f : Name) :
    m.resolve (s ++ '/' :: f)
      = (m.disk.walk (if isAbsolute (s ++ ['/']) then [] else m.cwd) (s.splitOn '/')).bind
          fun p ↦ m.disk.walk p (f.splitOn '/') := by
  have habs : isAbsolute (s ++ '/' :: f) = isAbsolute (s ++ ['/']) := by cases s <;> rfl
  rw [resolve, if_neg (by simp), splitOn_slash, Disk.walk_append, habs]

/-- Following a trailing separator checks that one stands on a directory. -/
theorem resolve_trailing {m : Machine} {s : Name} {p : Path} (h : m.resolve (s ++ ['/']) = some p) :
    m.disk.isDir p = true ∧ ∀ f, m.resolve (s ++ '/' :: f) = m.disk.walk p (f.splitOn '/') := by
  rw [resolve_slash] at h
  obtain ⟨q, hq, hw⟩ := Option.bind_eq_some_iff.mp h
  rw [show ([] : Name).splitOn '/' = [[]] from rfl, Disk.walk] at hw
  split at hw
  · rename_i hd
    obtain rfl : q = p := by simpa [Disk.walk, Disk.stepTo] using hw
    refine ⟨hd, fun f ↦ ?_⟩
    rw [resolve_slash, hq, Option.bind_some]
  · cases hw

/-- A name leads nowhere from what is no directory. -/
theorem walk_splitOn_of_not_isDir {d : Disk} {p : Path} (hp : d.isDir p = false) (f : Name) :
    d.walk p (f.splitOn '/') = none := by
  obtain ⟨c, cs, hcs⟩ := List.exists_cons_of_ne_nil (List.splitOn_ne_nil '/' f)
  rw [hcs, Disk.walk, hp, if_neg Bool.false_ne_true]

/-- A name behind a separator is followed from where the string before it leads. -/
theorem resolve_behind_slash (m : Machine) (s f : Name) :
    m.resolve (s ++ '/' :: f) =
      (m.resolve (s ++ ['/'])).bind fun p ↦ m.disk.walk p (f.splitOn '/') := by
  cases hr : m.resolve (s ++ ['/']) with
  | some p => exact (resolve_trailing hr).2 f
  | none =>
    rw [resolve_slash] at hr ⊢
    cases hq : m.disk.walk (if isAbsolute (s ++ ['/']) then [] else m.cwd) (s.splitOn '/') with
    | none => rfl
    | some q =>
      have hdir : m.disk.isDir q = false := by
        rw [hq, Option.bind_some, show ([] : Name).splitOn '/' = [[]] from rfl, Disk.walk] at hr
        by_contra hdir
        rw [Bool.not_eq_false] at hdir
        rw [if_pos hdir] at hr
        cases hr
      exact walk_splitOn_of_not_isDir hdir f

theorem resolve_plain {m : Machine} {s f : Name} {p : Path} (h : m.resolve (s ++ ['/']) = some p)
    (hf : Plain f) : m.resolve (s ++ '/' :: f) = some (p ++ [f]) := by
  obtain ⟨hd, hr⟩ := resolve_trailing h
  rw [hr, splitOn_plain hf.noSlash, Disk.walk, if_pos hd, hf.stepTo]
  rfl

/-- A plain name leads somewhere only in a directory. -/
theorem exists_resolve_of_plain {m : Machine} {s f : Name} {p : Path} (hf : Plain f)
    (h : m.resolve (s ++ '/' :: f) = some p) :
    ∃ r, m.resolve (s ++ ['/']) = some r ∧ p = r ++ [f] := by
  rw [resolve_slash] at h
  obtain ⟨r, hr, hw⟩ := Option.bind_eq_some_iff.mp h
  rw [splitOn_plain hf.noSlash, Disk.walk] at hw
  split at hw
  · rename_i hd
    rw [hf.stepTo] at hw
    refine ⟨r, ?_, (Option.some_inj.mp hw).symm⟩
    rw [resolve_slash, hr, Option.bind_some, show ([] : Name).splitOn '/' = [[]] from rfl,
      Disk.walk,
      if_pos hd]
    rfl
  · cases hw

/-- A separator at the end of the path string of a directory. -/
theorem resolve_concat_slash {m : Machine} {s : Name} {p : Path} (h : m.resolve s = some p)
    (hp : m.disk.isDir p = true) : m.resolve (s ++ ['/']) = some p := by
  have hs : s ≠ [] := by
    rintro rfl
    cases h
  have habs : isAbsolute (s ++ ['/']) = isAbsolute s := by
    obtain ⟨c, s, rfl⟩ := List.exists_cons_of_ne_nil hs
    rfl
  rw [resolve, if_neg hs] at h
  rw [resolve_slash, habs, h, show ([] : Name).splitOn '/' = [[]] from rfl]
  simp [Disk.walk, Disk.stepTo, hp]

/-- A doubled separator is as good as one. -/
theorem resolve_doubled {m : Machine} {s : Name} {p : Path} (h : m.resolve (s ++ ['/']) = some p) :
    m.resolve (s ++ ['/'] ++ ['/']) = some p := by
  obtain ⟨hd, hr⟩ := resolve_trailing h
  rw [List.append_assoc]
  rw [List.singleton_append, hr, show ['/'].splitOn '/' = [[], []] from rfl]
  simp [Disk.walk, Disk.stepTo, hd]

end Machine

/-! ## Flat directories

The invariant of a directory that is used as a store. -/

/-- The string `dir` names the directory at `p`, with a trailing separator, and everything below it
is a plainly named regular file directly in it. -/
structure FlatDir (m : Machine) (dir : Name) (p : Path) : Prop where
  /-- The string ends in a separator. -/
  trailing : ∃ s, dir = s ++ ['/']
  /-- The string `dir` is not that of two separators, which would make the name of a net of what
  follows. -/
  ne_net : dir ≠ ['/', '/']
  /-- The string `dir` leads to `p`. -/
  resolves : m.resolve dir = some p
  /-- Below `p` there are only plainly named regular files, directly in the directory. -/
  flat : ∀ q n, m.disk.at? q = some n → p <+: q → p ≠ q →
    ∃ f x, q = p ++ [f] ∧ Plain f ∧ n = .file x

namespace FlatDir

variable {m : Machine} {dir : Name} {p : Path}

theorem isDir (h : FlatDir m dir p) : m.disk.isDir p = true := by
  obtain ⟨s, rfl⟩ := h.trailing
  exact (Machine.resolve_trailing h.resolves).1

theorem resolve (h : FlatDir m dir p) {f : Name} (hf : Plain f) :
    m.resolve (dir ++ f) = some (p ++ [f]) := by
  obtain ⟨s, hs⟩ := h.trailing
  have hr := h.resolves
  rw [hs] at hr
  rw [hs, List.append_assoc, List.singleton_append]
  exact Machine.resolve_plain hr hf

/-- The name of a file can be read off from its path string. -/
theorem filename (h : FlatDir m dir p) {f : Name} (hf : Plain f) : filename (dir ++ f) = f := by
  obtain ⟨s, rfl⟩ := h.trailing
  rw [List.append_assoc, List.singleton_append]
  exact hf.filename_slash fun hs ↦ h.ne_net (by rw [hs]; rfl)

theorem resolve_doubled (h : FlatDir m dir p) {f : Name} (hf : Plain f) :
    m.resolve (dir ++ ['/'] ++ f) = some (p ++ [f]) := by
  obtain ⟨s, hs⟩ := h.trailing
  have hr := h.resolves
  rw [hs] at hr
  rw [hs, List.append_assoc, List.singleton_append]
  exact Machine.resolve_plain (Machine.resolve_doubled hr) hf

theorem at?_eq (h : FlatDir m dir p) (f : Name) :
    m.disk.at? (p ++ [f]) = (m.view p f).map .file := by
  cases hn : m.disk.at? (p ++ [f]) with
  | none => rw [Machine.view, hn]; rfl
  | some n =>
    obtain ⟨g, x, -, -, rfl⟩ := h.flat _ n hn (List.prefix_append ..) (by simp)
    rw [Machine.view, hn]; rfl

theorem not_isDir (h : FlatDir m dir p) (f : Name) : m.disk.isDir (p ++ [f]) = false := by
  rw [Disk.isDir, h.at?_eq]
  cases m.view p f <;> simp

/-- A name in the store is a plain one. -/
theorem plain (h : FlatDir m dir p) {f : Name} {x : File} (hx : m.view p f = some x) : Plain f := by
  obtain ⟨g, y, he, hg, -⟩ :=
    h.flat _ _ (Machine.view_eq_some.mp hx) (List.prefix_append ..) (by simp)
  obtain rfl : f = g := by simpa using he
  exact hg

theorem ofFiles {clock : Nat → Int} {p : Path} {files : List (Name × File)} {s : Name}
    (hs : (Machine.ofFiles clock p files).resolve (s ++ ['/']) = some p)
    (hfiles : ∀ f ∈ files, Plain f.1) (hnet : s ≠ ['/']) :
    FlatDir (Machine.ofFiles clock p files) (s ++ ['/']) p := by
  have hne : s ++ ['/'] ≠ ['/', '/'] := fun he ↦ hnet ((List.append_left_inj ['/']).mp he)
  refine ⟨⟨s, rfl⟩, hne, hs, fun q n hq hpre hne ↦ ?_⟩
  rcases List.mem_append.mp (Disk.mem_of_at?_ofList hq) with hmem | hmem
  · obtain ⟨f, hf, he⟩ := List.mem_map.mp hmem
    cases he
    exact ⟨f.1, f.2, rfl, hfiles f hf, rfl⟩
  · obtain ⟨r, hr, he⟩ := List.mem_map.mp hmem
    cases he
    exact absurd (hpre.eq_of_length_le ((List.mem_inits ..).mp hr).length_le) hne

/-- A flat directory stays one when files are put in it or taken out of it. -/
theorem of_sameTree (h : FlatDir m dir p) {m' : Machine} (hm : Machine.SameTree m m')
    {f : Name} (hf : Plain f) (hf' : ∀ n, m'.disk.at? (p ++ [f]) = some n → ∃ x, n = .file x)
    (hne : ∀ q, q ≠ p ++ [f] → m'.disk.at? q = m.disk.at? q) : FlatDir m' dir p := by
  refine ⟨h.trailing, h.ne_net, (hm.resolve dir).trans h.resolves, fun q n hq hpre hpq ↦ ?_⟩
  by_cases he : q = p ++ [f]
  · subst he
    obtain ⟨x, hx⟩ := hf' n hq
    exact ⟨f, x, rfl, hf, hx⟩
  · rw [hne q he] at hq
    exact h.flat q n hq hpre hpq

theorem put (h : FlatDir m dir p) {f : Name} (hf : Plain f) (c : Contents) :
    FlatDir (m.put (p ++ [f]) c) dir p := by
  refine h.of_sameTree (Machine.sameTree_put (h.not_isDir f) c) hf (fun n hn ↦ ?_)
    fun q hq ↦ Disk.at?_set_of_ne _ _ hq
  rw [Machine.put, Disk.at?_set_self] at hn
  cases hn
  exact ⟨_, rfl⟩

theorem erase (h : FlatDir m dir p) {f : Name} {x : File} (hx : m.view p f = some x) :
    FlatDir { m with disk := m.disk.erase (p ++ [f]) } dir p := by
  refine h.of_sameTree (Machine.sameTree_erase (Machine.view_eq_some.mp hx)) (h.plain hx)
    (fun n hn ↦ ?_) fun q hq ↦ Disk.at?_erase_of_ne _ hq
  rw [Disk.at?_erase_self] at hn
  cases hn

/-! The operations. -/

/-- A string that leads to the place of `f` in a flat directory, however it is spelled. -/
theorem stat_of_resolve (h : FlatDir m dir p) {f s : Name} (hs : m.resolve s = some (p ++ [f])) :
    m.stat s = m.view p f := by
  rw [Machine.stat, hs, Option.bind_some, h.at?_eq]
  cases m.view p f <;> rfl

theorem exists_of_resolve (h : FlatDir m dir p) {f s : Name} (hs : m.resolve s = some (p ++ [f])) :
    m.exists s = (m.view p f).isSome := by
  rw [Machine.exists, hs]
  simp [h.not_isDir, h.at?_eq]

theorem stat (h : FlatDir m dir p) {f : Name} (hf : Plain f) : m.stat (dir ++ f) = m.view p f :=
  h.stat_of_resolve (h.resolve hf)

theorem «exists» (h : FlatDir m dir p) {f : Name} (hf : Plain f) :
    m.exists (dir ++ f) = (m.view p f).isSome :=
  h.exists_of_resolve (h.resolve hf)

theorem write (h : FlatDir m dir p) {f : Name} (hf : Plain f) (c : Contents) :
    m.write (dir ++ f) c.bytes = m.put (p ++ [f]) c :=
  Machine.write_of_resolve (h.resolve hf) (h.not_isDir f) c

theorem remove (h : FlatDir m dir p) {f : Name} {x : File} (hx : m.view p f = some x) :
    m.remove (dir ++ f) = some { m with disk := m.disk.erase (p ++ [f]) } := by
  rw [Machine.remove, h.resolve (h.plain hx)]
  simp [Machine.view_eq_some.mp hx]

/-! The listing. -/

/-- The names in the directory, in the order they are listed. -/
def names (m : Machine) (p : Path) : List Name :=
  (m.order.arrange (m.entriesBelow p)).filterMap List.getLast?

theorem mem_entriesBelow (h : FlatDir m dir p) {q : Path} :
    q ∈ m.entriesBelow p ↔ ∃ f x, q = p ++ [f] ∧ m.view p f = some x := by
  rw [Machine.mem_entriesBelow]
  constructor
  · rintro ⟨⟨n, hn⟩, hpre, hne⟩
    obtain ⟨f, x, rfl, -, rfl⟩ := h.flat q n hn hpre hne
    exact ⟨f, x, rfl, Machine.view_eq_some.mpr hn⟩
  · rintro ⟨f, x, rfl, hx⟩
    exact ⟨⟨_, Machine.view_eq_some.mp hx⟩, List.prefix_append .., by simp⟩

/-- The listing, through any string that leads to the directory. -/
theorem list_of_resolve (h : FlatDir m dir p) {s : Name} (hs : m.resolve s = some p) :
    m.listRecursive s = some ((names m p).map fun f ↦ p ++ [f]) := by
  rw [Machine.listRecursive, hs]
  simp only [h.isDir, if_true, Option.some_inj]
  have hall : ∀ q ∈ m.order.arrange (m.entriesBelow p), ∃ f, q = p ++ [f] := by
    intro q hq
    obtain ⟨f, x, rfl, -⟩ := h.mem_entriesBelow.mp ((m.order.perm _).mem_iff.mp hq)
    exact ⟨f, rfl⟩
  rw [names, List.map_filterMap]
  generalize m.order.arrange (m.entriesBelow p) = l at hall
  induction l with
  | nil => rfl
  | cons q l ih =>
    obtain ⟨f, rfl⟩ := hall q (by simp)
    rw [List.filterMap_cons_some (b := p ++ [f]) (by simp),
      ← ih fun q' hq' ↦ hall q' (List.mem_cons_of_mem _ hq')]

theorem list (h : FlatDir m dir p) :
    m.listRecursive dir = some ((names m p).map fun f ↦ p ++ [f]) := h.list_of_resolve h.resolves

theorem mem_names (h : FlatDir m dir p) {f : Name} :
    f ∈ names m p ↔ ∃ x, m.view p f = some x := by
  rw [names, List.mem_filterMap]
  constructor
  · rintro ⟨q, hq, hf⟩
    obtain ⟨g, x, rfl, hx⟩ := h.mem_entriesBelow.mp ((m.order.perm _).mem_iff.mp hq)
    obtain rfl : g = f := by simpa using hf
    exact ⟨x, hx⟩
  · rintro ⟨x, hx⟩
    exact ⟨p ++ [f], (m.order.perm _).mem_iff.mpr (h.mem_entriesBelow.mpr ⟨f, x, rfl, hx⟩),
      by simp⟩

theorem names_nodup (h : FlatDir m dir p) : (names m p).Nodup := by
  have hl := h.list
  rw [Machine.listRecursive, h.resolves] at hl
  simp only [h.isDir, if_true, Option.some_inj] at hl
  have hnd : (m.order.arrange (m.entriesBelow p)).Nodup :=
    (m.order.perm _).nodup_iff.mpr (Machine.entriesBelow_nodup m p)
  rw [hl] at hnd
  exact hnd.of_map _

/-- The files in the directory, in the order they are listed. -/
def listing (m : Machine) (p : Path) : List (Name × File) :=
  (names m p).filterMap fun f ↦ (m.view p f).map fun x ↦ (f, x)

theorem mem_listing (h : FlatDir m dir p) {e : Name × File} :
    e ∈ listing m p ↔ m.view p e.1 = some e.2 := by
  rw [listing, List.mem_filterMap]
  constructor
  · rintro ⟨f, -, he⟩
    obtain ⟨x, hx, rfl⟩ := Option.map_eq_some_iff.mp he
    exact hx
  · intro he
    exact ⟨e.1, h.mem_names.mpr ⟨e.2, he⟩, by rw [he]; rfl⟩

theorem map_fst_listing (h : FlatDir m dir p) : (listing m p).map Prod.fst = names m p := by
  have hnames : ∀ f ∈ names m p, ∃ x, m.view p f = some x := fun f ↦ h.mem_names.mp
  rw [listing]
  generalize names m p = l at hnames
  induction l with
  | nil => rfl
  | cons f l ih =>
    obtain ⟨x, hx⟩ := hnames f List.mem_cons_self
    rw [List.filterMap_cons_some (b := (f, x)) (by rw [hx]; rfl), List.map_cons,
      ih fun g hg ↦ hnames g (List.mem_cons_of_mem _ hg)]

end FlatDir
end FileSystem
