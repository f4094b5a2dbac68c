import Bropdox.FileSystem.Subtree

/-!
# What one directory is to another

Two directories neither of which is below the other have nothing to do with each other: a change
below one of them is none to the other (`Machine.SameBeside`).  All that they share is the clock.
But an operation looks at the clock only for the time of a file that it writes, so it goes on any
machine as on one with another clock, if that shows the right time where something is written
(`write_withClock`, `remove_withClock`).
-/

set_option autoImplicit false

namespace FileSystem
namespace Machine

/-! ## Clocks

A machine reads its clock only to date a file that it writes, so an operation does the same on a
machine with another clock, as long as that clock shows the same time at the write. -/

/-- A machine with another clock. -/
def withClock (m : Machine) (clock : Nat → Int) : Machine := { m with clock := clock }

section Clock

variable (m : Machine) (s : Name)

theorem put_withClock (p : Path) (c : Contents) : ∃ g : (Nat → Int) → Nat → Int,
    ∀ clock, (m.withClock (g clock)).put p c = (m.put p c).withClock clock :=
  ⟨fun clock n ↦ Nat.casesOn n (m.clock 0) clock, fun _ ↦ rfl⟩

/-- A clock that shows the time of the write goes on from there as it likes. -/
theorem write_withClock (bytes : List UInt8) : ∃ g : (Nat → Int) → Nat → Int,
    ∀ clock, (m.withClock (g clock)).write s bytes = (m.write s bytes).withClock clock := by
  have hsame (clock : Nat → Int) : (m.withClock clock).resolve s = m.resolve s := rfl
  have hdir (clock : Nat → Int) (p : Path) :
      (m.withClock clock).disk.isDir p = m.disk.isDir p := rfl
  simp only [write, hsame, hdir]
  split
  · split
    · exact ⟨id, fun _ ↦ rfl⟩
    · split
      · exact m.put_withClock _ _
      · exact ⟨id, fun _ ↦ rfl⟩
  · exact ⟨id, fun _ ↦ rfl⟩

/-- Nothing is written when something is removed. -/
theorem remove_withClock (clock : Nat → Int) :
    (m.withClock clock).remove s = (m.remove s).map fun n ↦ n.withClock clock := by
  have hsame : (m.withClock clock).resolve s = m.resolve s := rfl
  have hdisk : (m.withClock clock).disk = m.disk := rfl
  have hbelow (p : Path) : (m.withClock clock).entriesBelow p = m.entriesBelow p := rfl
  rw [remove, remove, hsame]
  cases m.resolve s with
  | none => rfl
  | some p =>
    simp only [hdisk, hbelow]
    split
    · rfl
    · split
      · rfl
      · split <;> rfl
      · rfl

end Clock

/-! ## Directories beside each other

What it is for two machines to agree on one directory, and for two paths to have no node in common:
what happens below one of the paths is no change to the other. -/

/-- Two machines that agree on a directory, on the way to it and on everything below it; their
clocks may differ. -/
structure SameBeside (q : Path) (m m' : Machine) : Prop where
  /-- The working directory is the same. -/
  cwd : m'.cwd = m.cwd
  /-- Directories are listed in the same order. -/
  order : m'.order = m.order
  /-- The nodes are the same. -/
  node : ∀ r, r <+: q ∨ q <+: r → m'.disk.at? r = m.disk.at? r
  /-- The entries are stored in the same order. -/
  entries : m'.entriesBelow q = m.entriesBelow q

/-- Two paths are beside each other when neither is on the way to the other. -/
def Beside (p q : Path) : Prop := ¬ p <+: q ∧ ¬ q <+: p

variable {m : Machine} {p q r x : Path}

theorem Beside.of_ne {f g : Name} (h : f ≠ g) : Beside (p ++ [f]) (p ++ [g]) :=
  have hne {a b : Name} (hab : a ≠ b) : ¬ p ++ [a] <+: p ++ [b] := fun hpre ↦
    hab (by simpa using hpre.eq_of_length (by simp))
  ⟨hne h, hne h.symm⟩

theorem Beside.ne (h : Beside p q) (hx : p <+: x) (hr : r <+: q ∨ q <+: r) : r ≠ x := by
  rintro rfl
  rcases hr with hr | hr
  · exact h.1 (hx.trans hr)
  · rcases List.prefix_or_prefix_of_prefix hx hr with hpq | hqp
    · exact h.1 hpq
    · exact h.2 hqp

theorem SameBeside.rfl' (q : Path) (m : Machine) : SameBeside q m m :=
  ⟨rfl, rfl, fun _ _ ↦ rfl, rfl⟩

/-- A change below `p` removes no entry below `q`. -/
theorem Beside.filter_entries (h : Beside p q) (hx : p <+: x) (m : Machine) :
    ((m.entriesBelow q).filter fun r ↦ r ≠ x) = m.entriesBelow q := by
  refine List.filter_eq_self.mpr fun r hr ↦ decide_eq_true ?_
  exact h.ne hx (.inr (mem_entriesBelow.mp hr).2.1)

/-- A file that is put below `p` is not beside it. -/
theorem Beside.put (h : Beside p q) (hx : p <+: x) (c : Contents) :
    SameBeside q m (m.put x c) := by
  refine ⟨rfl, rfl, fun r hr ↦ Disk.at?_set_of_ne _ _ (h.ne hx hr), ?_⟩
  have hbelow : below q x = false := by
    rw [below, Bool.and_eq_false_iff, ← Bool.not_eq_true, List.isPrefixOf_iff_prefix]
    exact .inl fun hq ↦ h.ne hx (.inr hq) rfl
  rw [entriesBelow_put, hbelow, if_neg Bool.false_ne_true, h.filter_entries hx]

/-- What is erased below `p` is not beside it. -/
theorem Beside.erase (h : Beside p q) (hx : p <+: x) :
    SameBeside q m { m with disk := m.disk.erase x } := by
  refine ⟨rfl, rfl, fun r hr ↦ Disk.at?_erase_of_ne _ (h.ne hx hr), ?_⟩
  rw [entriesBelow_erase, h.filter_entries hx]

end Machine
end FileSystem
