import Bropdox.FileSystem.Machine

/-!
# What a path string depends on

Following a path string looks at the places it visits on the way and at nothing else, so that a
string that only visits places below a directory leads to the same place on every disk that agrees
there.

## What is here

* `Disk.Visits` says of some components that following them visits only places with a property.
  `Visits.walk_eq` is the fact above, and `Visits.anti` and `Visits.walk_anti` compare a disk with
  one that has fewer directories.
* `Machine.SameBelow p m m'` says that two machines agree on the directory `p` and everything below
  it, and would go on alike.
* The lemmas `SameBelow.*` are the file operations on two such machines, given a string that leads
  below `p` and to the same place on both: they come to the same, and the machines agree again.
-/

set_option autoImplicit false

namespace FileSystem

namespace Disk

/-- Following the components visits no place that is not `ok`. -/
def Visits (d : Disk) (ok : Path → Prop) : Path → List Name → Prop
  | cur, [] => ok cur
  | cur, c :: cs => ok cur ∧ (d.isDir cur = true → Visits d ok (stepTo cur c) cs)

variable {d d' : Disk} {ok : Path → Prop} {cur q : Path} {cs : List Name}

instance decidableVisits (d : Disk) (ok : Path → Prop) [DecidablePred ok] :
    (cur : Path) → (cs : List Name) → Decidable (d.Visits ok cur cs)
  | cur, [] => inferInstanceAs (Decidable (ok cur))
  | cur, c :: cs =>
    have := decidableVisits d ok (stepTo cur c) cs
    inferInstanceAs (Decidable (ok cur ∧ (d.isDir cur = true → d.Visits ok (stepTo cur c) cs)))

theorem Visits.start (h : d.Visits ok cur cs) : ok cur := by
  cases cs with
  | nil => exact h
  | cons c cs => exact h.1

/-- **Where a walk leads depends only on the places it visits.** -/
theorem Visits.walk_eq (h : d.Visits ok cur cs) (hd : ∀ q, ok q → d'.isDir q = d.isDir q) :
    d'.walk cur cs = d.walk cur cs := by
  induction cs generalizing cur with
  | nil => rfl
  | cons c cs ih =>
    rw [walk, walk, hd cur h.1]
    by_cases hcur : d.isDir cur = true
    · rw [if_pos hcur, if_pos hcur, ih (h.2 hcur)]
    · rw [if_neg hcur, if_neg hcur]

/-- With fewer directories a walk visits fewer places. -/
theorem Visits.anti (h : d.Visits ok cur cs)
    (hd : ∀ q, ok q → d'.isDir q = true → d.isDir q = true) : d'.Visits ok cur cs := by
  induction cs generalizing cur with
  | nil => exact h
  | cons c cs ih => exact ⟨h.1, fun hcur ↦ ih (h.2 (hd cur h.1 hcur))⟩

theorem Visits.congr (h : d.Visits ok cur cs) (hd : ∀ q, ok q → d'.isDir q = d.isDir q) :
    d'.Visits ok cur cs :=
  h.anti fun q hq hdir ↦ hd q hq ▸ hdir

/-- A walk that still leads somewhere with fewer directories leads to the same place. -/
theorem Visits.walk_anti (h : d.Visits ok cur cs)
    (hd : ∀ q, ok q → d'.isDir q = true → d.isDir q = true) (hw : d'.walk cur cs = some q) :
    d.walk cur cs = some q := by
  induction cs generalizing cur with
  | nil => exact hw
  | cons c cs ih =>
    rw [walk] at hw ⊢
    split at hw
    · rename_i hcur
      have hcur' := hd cur h.1 hcur
      rw [if_pos hcur']
      exact ih (h.2 hcur') hw
    · cases hw

/-- A walk that stays below `p` goes by plain names. -/
theorem Visits.plain_of_walk {p : Path} (h : d.Visits (p <+: ·) cur cs) (hcs : ∀ c ∈ cs, '/' ∉ c)
    {r : Path} (hcur : cur = p ++ r) (hr : ∀ c ∈ r, Plain c) (hw : d.walk cur cs = some q) :
    ∃ r', q = p ++ r' ∧ ∀ c ∈ r', Plain c := by
  induction cs generalizing cur r with
  | nil =>
    cases hw
    exact ⟨r, hcur, hr⟩
  | cons c cs ih =>
    obtain ⟨hc, hcs⟩ := List.forall_mem_cons.mp hcs
    rw [walk] at hw
    split at hw
    case isFalse => cases hw
    case isTrue hdir =>
      have hnext := h.2 hdir
      by_cases hstay : c = [] ∨ c = ['.']
      · rw [stepTo, if_pos hstay] at hnext hw
        exact ih hnext hcs hcur hr hw
      by_cases hup : c = ['.', '.']
      · rw [stepTo, if_neg hstay, if_pos hup] at hnext hw
        obtain ⟨r', hr'⟩ := hnext.start
        refine ih hnext hcs hr'.symm (fun b hb ↦ ?_) hw
        -- what is left of the way down is part of it
        have hpre : p ++ r' <+: p ++ r := hr' ▸ hcur ▸ List.dropLast_prefix cur
        exact hr b (((List.prefix_append_right_inj p).mp hpre).subset hb)
      · rw [stepTo, if_neg hstay, if_neg hup] at hnext hw
        rw [not_or] at hstay
        refine ih (r := r ++ [c]) hnext hcs (by rw [hcur, List.append_assoc]) (fun b hb ↦ ?_) hw
        rcases List.mem_append.mp hb with hb | hb
        · exact hr b hb
        · obtain rfl := List.mem_singleton.mp hb
          exact ⟨hstay.1, hc, hstay.2, hup⟩

end Disk

namespace Machine

/-- Two machines that agree on a directory and everything below it, and would go on alike. -/
structure SameBelow (p : Path) (m m' : Machine) : Prop where
  /-- The working directory is the same. -/
  cwd : m'.cwd = m.cwd
  /-- The clock will show the same times. -/
  clock : m'.clock = m.clock
  /-- Directories are listed in the same order. -/
  order : m'.order = m.order
  /-- The nodes are the same. -/
  node : ∀ q, p <+: q → m'.disk.at? q = m.disk.at? q
  /-- The entries are stored in the same order. -/
  entries : m'.entriesBelow p = m.entriesBelow p

theorem entriesBelow_erase (m : Machine) (p q : Path) :
    ({ m with disk := m.disk.erase q } : Machine).entriesBelow p =
      (m.entriesBelow p).filter fun r ↦ r ≠ q := by
  -- a map compares its keys by the instance it was given
  have hkeys : (m.disk.erase q).nodes.keys = m.disk.nodes.keys.filter fun r ↦ r ≠ q := by
    refine (AList.keys_erase q m.disk.nodes).trans ?_
    rw [@List.Nodup.erase_eq_filter Path instBEqOfDecidableEq _ _ m.disk.nodes.keys_nodup q]
    exact List.filter_congr fun r _ ↦ (decide_not (p := r = q)).symm
  rw [entriesBelow, hkeys, entriesBelow, List.filter_filter, List.filter_filter]
  exact List.filter_congr fun r _ ↦ Bool.and_comm ..

theorem entriesBelow_put (m : Machine) (p q : Path) (c : Contents) :
    (m.put q c).entriesBelow p =
      if below p q then q :: (m.entriesBelow p).filter fun r ↦ r ≠ q
      else (m.entriesBelow p).filter fun r ↦ r ≠ q := by
  have hkeys : (m.put q c).disk.nodes.keys = q :: (m.disk.erase q).nodes.keys :=
    (AList.keys_insert m.disk.nodes).trans (congrArg _ (AList.keys_erase q m.disk.nodes).symm)
  rw [← entriesBelow_erase, entriesBelow, hkeys, List.filter_cons]
  rfl

/-- What is below a place of the subtree is below its root. -/
theorem entriesBelow_of_below (m : Machine) {p q : Path} (hq : p <+: q) :
    m.entriesBelow q = (m.entriesBelow p).filter (below q) := by
  rw [entriesBelow, entriesBelow, List.filter_filter]
  refine List.filter_congr fun r _ ↦ ?_
  cases hr : below q r with
  | false => rfl
  | true =>
    rw [below, Bool.and_eq_true, bne_iff_ne, List.isPrefixOf_iff_prefix] at hr
    have hp : below p r = true := by
      rw [below, Bool.and_eq_true, bne_iff_ne, List.isPrefixOf_iff_prefix]
      refine ⟨hq.trans hr.1, ?_⟩
      rintro rfl
      exact hr.2 (hr.1.eq_of_length_le hq.length_le)
    rw [hp, Bool.true_and]

namespace SameBelow

variable {m m' : Machine} {p q : Path} {s : Name}

theorem symm (h : SameBelow p m m') : SameBelow p m' m :=
  ⟨h.cwd.symm, h.clock.symm, h.order.symm, fun q hq ↦ (h.node q hq).symm, h.entries.symm⟩

theorem isDir (h : SameBelow p m m') (hq : p <+: q) : m'.disk.isDir q = m.disk.isDir q :=
  Disk.isDir_congr (h.node q hq)

/-- Putting the same file below `p` on both machines keeps their agreement. -/
theorem put (h : SameBelow p m m') (q : Path) (c : Contents) :
    SameBelow p (m.put q c) (m'.put q c) := by
  refine ⟨h.cwd, ?_, h.order, fun r hr ↦ ?_, ?_⟩
  · simp only [Machine.put, Machine.tick, h.clock]
  · rw [Machine.put, Machine.put, h.clock]
    by_cases hrq : r = q
    · rw [hrq, Disk.at?_set_self, Disk.at?_set_self]
    · rw [Disk.at?_set_of_ne _ _ hrq, Disk.at?_set_of_ne _ _ hrq]
      exact h.node r hr
  · rw [entriesBelow_put, entriesBelow_put, h.entries]

/-- Erasing the same node on both machines keeps their agreement. -/
theorem erase (h : SameBelow p m m') (q : Path) :
    SameBelow p { m with disk := m.disk.erase q } { m' with disk := m'.disk.erase q } := by
  refine ⟨h.cwd, h.clock, h.order, fun r hr ↦ ?_, ?_⟩
  · by_cases hrq : r = q
    · rw [hrq]
      simp
    · simp only [Disk.at?_erase_of_ne _ hrq]
      exact h.node r hr
  · rw [entriesBelow_erase, entriesBelow_erase, h.entries]

/-! The operations, given a string that leads below `p`, and to the same place on both. -/

section Leading

variable (h : SameBelow p m m') (hs : m'.resolve s = m.resolve s)
  (hin : ∀ q, m.resolve s = some q → p <+: q)
include h hs hin

theorem exists_eq : m'.exists s = m.exists s := by
  rw [Machine.exists, Machine.exists, hs]
  cases hq : m.resolve s with
  | none => rfl
  | some q => simp only [h.isDir (hin q hq), h.node q (hin q hq)]

theorem stat_eq : m'.stat s = m.stat s := by
  rw [Machine.stat, Machine.stat, hs]
  cases hq : m.resolve s with
  | none => rfl
  | some q => rw [Option.bind_some, Option.bind_some, h.node q (hin q hq)]

theorem write (bytes : List UInt8) : SameBelow p (m.write s bytes) (m'.write s bytes) := by
  rw [Machine.write, Machine.write, hs]
  cases hq : m.resolve s with
  | none => exact h
  | some q =>
    simp only [h.isDir (hin q hq)]
    split
    · exact h
    · split
      · exact h.put q _
      · exact h

/-- A removal fails on both machines, or it succeeds on both. -/
theorem remove : (m.remove s = none ∧ m'.remove s = none) ∨
    ∃ n n', m.remove s = some n ∧ m'.remove s = some n' ∧ SameBelow p n n' := by
  rw [Machine.remove, Machine.remove, hs]
  cases hq : m.resolve s with
  | none => exact .inr ⟨m, m', rfl, rfl, h⟩
  | some q =>
    have hbelow : m'.entriesBelow q = m.entriesBelow q := by
      rw [entriesBelow_of_below m' (hin q hq), entriesBelow_of_below m (hin q hq), h.entries]
    simp only [h.node q (hin q hq), hbelow]
    split
    · exact .inl ⟨rfl, rfl⟩
    · split
      · exact .inr ⟨_, _, rfl, rfl, h.erase q⟩
      · split
        · exact .inl ⟨rfl, rfl⟩
        · exact .inr ⟨_, _, rfl, rfl, h.erase q⟩
      · exact .inr ⟨m, m', rfl, rfl, h⟩

end Leading

end SameBelow
end Machine
end FileSystem
