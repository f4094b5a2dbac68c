import Mathlib.Order.Lattice

/-!
# Maps that are traversed in the order of their keys

An `OrderedMap` is what a search tree looks like from outside: its entries, sorted by key, with no
key twice.  The order matters where a program walks over the map.

## What is here

* `assign`, `get?`, `size` and `values` are the operations, with what they have to do with each
  other.
* `entries_assign_of_forall_lt` says where a new key ends up that is larger than all the others.
* `count_values_assign_le`: assigning one value makes another one no more frequent.
* `foldl_assign_entries`: assigning the entries of a map in their order builds the map.
-/

set_option autoImplicit false

/-- A finite map whose entries are kept in the order of their keys. -/
@[ext] structure OrderedMap (κ α : Type) [LinearOrder κ] where
  /-- The entries. -/
  entries : List (κ × α)
  /-- The entries are sorted, and no key is there twice. -/
  sorted : entries.Pairwise fun e e' ↦ e.1 < e'.1

namespace OrderedMap

variable {κ α : Type} [LinearOrder κ]

/-- The map without entries. -/
def empty : OrderedMap κ α := ⟨[], .nil⟩

/-- `m[k] = a`, on the sorted entries. -/
def assignList (k : κ) (a : α) : List (κ × α) → List (κ × α)
  | [] => [(k, a)]
  | e :: es =>
    if k < e.1 then (k, a) :: e :: es
    else if k = e.1 then (k, a) :: es
    else e :: assignList k a es

/-- What becomes of one entry. -/
theorem mem_assignList {k : κ} {a : α} {es : List (κ × α)}
    (hs : es.Pairwise fun e e' ↦ e.1 < e'.1) {e : κ × α} :
    e ∈ assignList k a es ↔ e = (k, a) ∨ (e.1 ≠ k ∧ e ∈ es) := by
  induction es with
  | nil => simp [assignList]
  | cons x es ih =>
    obtain ⟨hx, hs⟩ := List.pairwise_cons.mp hs
    rw [assignList]
    split
    · rename_i hlt
      have hne : ∀ y ∈ x :: es, y.1 ≠ k := by
        intro y hy
        rcases List.mem_cons.mp hy with rfl | hy
        · exact hlt.ne'
        · exact (hlt.trans (hx y hy)).ne'
      rw [List.mem_cons]
      exact or_congr_right ⟨fun he ↦ ⟨hne e he, he⟩, And.right⟩
    · split
      · rename_i hk
        have hne : ∀ y ∈ es, y.1 ≠ k := fun y hy ↦ hk ▸ (hx y hy).ne'
        rw [List.mem_cons, List.mem_cons]
        refine or_congr_right ⟨fun he ↦ ⟨hne e he, .inr he⟩, fun he ↦ ?_⟩
        rcases he.2 with rfl | hmem
        · exact absurd hk.symm he.1
        · exact hmem
      · rename_i hk
        rw [List.mem_cons, List.mem_cons, ih hs]
        constructor
        · rintro (rfl | rfl | ⟨hne, he⟩)
          · exact .inr ⟨Ne.symm hk, .inl rfl⟩
          · exact .inl rfl
          · exact .inr ⟨hne, .inr he⟩
        · rintro (rfl | ⟨hne, rfl | he⟩)
          · exact .inr (.inl rfl)
          · exact .inl rfl
          · exact .inr (.inr ⟨hne, he⟩)

theorem sorted_assignList {k : κ} {a : α} {es : List (κ × α)}
    (hs : es.Pairwise fun e e' ↦ e.1 < e'.1) :
    (assignList k a es).Pairwise fun e e' ↦ e.1 < e'.1 := by
  induction es with
  | nil => exact List.pairwise_singleton ..
  | cons x es ih =>
    obtain ⟨hx, hs'⟩ := List.pairwise_cons.mp hs
    rw [assignList]
    split
    · rename_i hlt
      refine List.pairwise_cons.mpr ⟨fun y hy ↦ ?_, hs⟩
      rcases List.mem_cons.mp hy with rfl | hy
      · exact hlt
      · exact hlt.trans (hx y hy)
    · rename_i hle
      split
      · rename_i hk
        exact List.pairwise_cons.mpr ⟨fun y hy ↦ hk ▸ hx y hy, hs'⟩
      · rename_i hk
        refine List.pairwise_cons.mpr ⟨fun y hy ↦ ?_, ih hs'⟩
        rcases (mem_assignList hs').mp hy with rfl | ⟨-, hy⟩
        · exact lt_of_le_of_ne (not_lt.mp hle) (Ne.symm hk)
        · exact hx y hy

/-- `m[k] = a` -/
def assign (m : OrderedMap κ α) (k : κ) (a : α) : OrderedMap κ α :=
  ⟨assignList k a m.entries, sorted_assignList m.sorted⟩

/-- What the map has for a key. -/
def get? (m : OrderedMap κ α) (k : κ) : Option α :=
  (m.entries.find? fun e ↦ e.1 = k).map Prod.snd

/-- The number of entries. -/
def size (m : OrderedMap κ α) : Nat := m.entries.length

/-- The values, in the order of their keys. -/
def values (m : OrderedMap κ α) : List α := m.entries.map Prod.snd

theorem mem_assign {m : OrderedMap κ α} {k : κ} {a : α} {e : κ × α} :
    e ∈ (m.assign k a).entries ↔ e = (k, a) ∨ (e.1 ≠ k ∧ e ∈ m.entries) :=
  mem_assignList m.sorted

/-- A key has one value only. -/
theorem eq_of_mem {m : OrderedMap κ α} {k : κ} {a b : α} (ha : (k, a) ∈ m.entries)
    (hb : (k, b) ∈ m.entries) : a = b := by
  have hs := m.sorted
  generalize m.entries = es at ha hb hs
  induction es with
  | nil => cases ha
  | cons x es ih =>
    obtain ⟨hx, hs⟩ := List.pairwise_cons.mp hs
    rcases List.mem_cons.mp ha with rfl | ha'
    · rcases List.mem_cons.mp hb with hb | hb
      · exact (Prod.mk.inj hb).2.symm
      · exact absurd (hx (k, b) hb) (lt_irrefl k)
    · rcases List.mem_cons.mp hb with rfl | hb'
      · exact absurd (hx (k, a) ha') (lt_irrefl k)
      · exact ih ha' hb' hs

theorem get?_eq_some {m : OrderedMap κ α} {k : κ} {a : α} :
    m.get? k = some a ↔ (k, a) ∈ m.entries := by
  rw [get?, Option.map_eq_some_iff]
  constructor
  · rintro ⟨⟨k', a'⟩, hfind, rfl⟩
    obtain rfl : k' = k := by simpa using List.find?_some hfind
    exact List.mem_of_find?_eq_some hfind
  · intro hmem
    cases hfind : m.entries.find? fun e ↦ e.1 = k with
    | none =>
      have hnone := List.find?_eq_none.mp hfind _ hmem
      simp at hnone
    | some e =>
      obtain ⟨k', a'⟩ := e
      obtain rfl : k' = k := by simpa using List.find?_some hfind
      exact ⟨_, rfl, eq_of_mem (List.mem_of_find?_eq_some hfind) hmem⟩

@[simp] theorem get?_assign_self (m : OrderedMap κ α) (k : κ) (a : α) :
    (m.assign k a).get? k = some a :=
  get?_eq_some.mpr (mem_assign.mpr (.inl rfl))

theorem get?_assign_of_ne (m : OrderedMap κ α) {k k' : κ} (a : α) (h : k' ≠ k) :
    (m.assign k a).get? k' = m.get? k' := by
  ext b
  rw [get?_eq_some, get?_eq_some, mem_assign]
  exact ⟨fun he ↦ (he.resolve_left fun heq ↦ h (Prod.mk.inj heq).1).2, fun he ↦ .inr ⟨h, he⟩⟩

@[simp] theorem get?_empty (k : κ) : (empty : OrderedMap κ α).get? k = none := rfl

/-- **A key that is larger than all others goes to the end.** -/
theorem entries_assign_of_forall_lt {m : OrderedMap κ α} {k : κ} (a : α)
    (h : ∀ e ∈ m.entries, e.1 < k) : (m.assign k a).entries = m.entries ++ [(k, a)] := by
  show assignList k a m.entries = _
  generalize m.entries = es at h
  induction es with
  | nil => rfl
  | cons x es ih =>
    have hx := h x List.mem_cons_self
    rw [assignList, if_neg hx.not_gt, if_neg hx.ne', ih fun e he ↦ h e (List.mem_cons_of_mem _ he)]
    rfl

/-- Assigning one value makes another one no more frequent. -/
theorem count_values_assign_le [DecidableEq α] (m : OrderedMap κ α) (k : κ) {a b : α}
    (h : b ≠ a) : (m.assign k a).values.count b ≤ m.values.count b := by
  show ((assignList k a m.entries).map Prod.snd).count b ≤ (m.entries.map Prod.snd).count b
  generalize m.entries = es
  induction es with
  | nil => simp [assignList, Ne.symm h]
  | cons e es ih =>
    rw [assignList]
    split
    · simp [Ne.symm h]
    · split
      · simp only [List.map_cons, List.count_cons, beq_iff_eq, Ne.symm h, if_false]
        omega
      · simp only [List.map_cons, List.count_cons]
        omega

/-- Assigning the entries of a map in their order builds the map. -/
theorem foldl_assign_entries (m : OrderedMap κ α) :
    m.entries.foldl (fun n e ↦ n.assign e.1 e.2) empty = m := by
  have hfold : ∀ (es : List (κ × α)) (n : OrderedMap κ α), (n.entries ++ es).Pairwise
      (fun e e' ↦ e.1 < e'.1) → (es.foldl (fun n e ↦ n.assign e.1 e.2) n).entries
        = n.entries ++ es := by
    intro es
    induction es with
    | nil => simp
    | cons e es ih =>
      intro n hs
      have hlast := entries_assign_of_forall_lt (m := n) e.2 fun x hx ↦
        (List.pairwise_append.mp hs).2.2 x hx e List.mem_cons_self
      have happ : (n.assign e.1 e.2).entries ++ es = n.entries ++ e :: es := by simp [hlast]
      rw [List.foldl_cons, ih _ (by rw [happ]; exact hs), happ]
  refine OrderedMap.ext ?_
  rw [hfold m.entries empty (by simpa [empty] using m.sorted)]
  rfl

end OrderedMap
