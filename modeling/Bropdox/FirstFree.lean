import Mathlib.Data.List.Basic
import Mathlib.Data.Set.Insert

/-!
# Slots given out in order

A row of slots, some of them in use.  Whoever needs one takes the first that is free.  As long as
none is given back the slots in use are the first `k` (`Filled`), so that the next one to be given
out is known without looking: `Filled.firstFree`.

Where slots are given back, too, what counts is which places are in use: `inUse`, the set that
giving out adds one place to.
-/

set_option autoImplicit false

namespace Slots

variable {α : Type} {used : α → Bool} {k i : Nat} {l : List α} {a : α}

/-- The place of the first slot that is not in use. -/
def firstFree (used : α → Bool) (l : List α) : Option Nat := l.findIdx? fun a ↦ !used a

theorem firstFree_eq_none_iff : firstFree used l = none ↔ ∀ a ∈ l, used a = true := by
  simp [firstFree, List.findIdx?_eq_none_iff]

theorem firstFree_eq_some_iff : firstFree used l = some i ↔
    (∃ a, l[i]? = some a ∧ used a = false) ∧ ∀ j < i, ∀ a, l[j]? = some a → used a = true := by
  rw [firstFree, List.findIdx?_eq_some_iff_getElem]
  constructor
  · rintro ⟨hi, hfree, hbefore⟩
    refine ⟨⟨l[i], List.getElem?_eq_getElem hi, by simpa using hfree⟩, fun j hj a ha ↦ ?_⟩
    obtain ⟨-, rfl⟩ := List.getElem?_eq_some_iff.mp ha
    simpa using hbefore j hj
  · rintro ⟨⟨a, ha, hfree⟩, hbefore⟩
    obtain ⟨hi, rfl⟩ := List.getElem?_eq_some_iff.mp ha
    refine ⟨hi, by simpa using hfree, fun j hj ↦ ?_⟩
    simpa using hbefore j hj _ (List.getElem?_eq_getElem (Nat.lt_trans hj hi))

/-- The places in use. -/
def inUse (used : α → Bool) (l : List α) : Set Nat := {i | ∃ a, l[i]? = some a ∧ used a = true}

theorem mem_inUse : i ∈ inUse used l ↔ ∃ a, l[i]? = some a ∧ used a = true := .rfl

theorem lt_of_mem_inUse (h : i ∈ inUse used l) : i < l.length := by
  obtain ⟨a, ha, -⟩ := h
  exact (List.getElem?_eq_some_iff.mp ha).1

/-- The first free place is one, and it is free. -/
theorem firstFree_spec (h : firstFree used l = some i) : i < l.length ∧ i ∉ inUse used l := by
  obtain ⟨⟨a, ha, hfree⟩, -⟩ := firstFree_eq_some_iff.mp h
  refine ⟨(List.getElem?_eq_some_iff.mp ha).1, fun hi ↦ ?_⟩
  obtain ⟨b, hb, hused⟩ := hi
  rw [ha, Option.some.injEq] at hb
  rw [hb, hused] at hfree
  cases hfree

/-- If there is none, every place is in use. -/
theorem mem_inUse_of_firstFree_none (h : firstFree used l = none) (hi : i < l.length) :
    i ∈ inUse used l :=
  ⟨l[i], List.getElem?_eq_getElem hi, firstFree_eq_none_iff.mp h _ (List.getElem_mem hi)⟩

/-- Giving out a place adds it. -/
theorem inUse_set_used (hi : i < l.length) (ha : used a = true) :
    inUse used (l.set i a) = insert i (inUse used l) := by
  ext j
  rw [mem_inUse, List.getElem?_set, if_pos hi, Set.mem_insert_iff, mem_inUse]
  by_cases hij : i = j
  · simp [hij, ha]
  · simp [hij, Ne.symm hij]

theorem inUse_replicate (ha : used a = false) (n : Nat) : inUse used (List.replicate n a) = ∅ := by
  refine Set.eq_empty_of_forall_notMem fun i hi ↦ ?_
  obtain ⟨b, hb, hused⟩ := hi
  rw [List.eq_of_mem_replicate (List.mem_of_getElem? hb), ha] at hused
  cases hused

/-- The slots in use are the first `k`. -/
structure Filled (used : α → Bool) (k : Nat) (l : List α) : Prop where
  /-- There are at least `k` slots. -/
  le : k ≤ l.length
  /-- The slots before the `k`-th are in use, and no others. -/
  used_iff : ∀ i a, l[i]? = some a → (used a = true ↔ i < k)

theorem filled_replicate (ha : used a = false) (n : Nat) :
    Filled used 0 (List.replicate n a) where
  le := Nat.zero_le _
  used_iff i b hb := by
    rw [List.eq_of_mem_replicate (List.mem_of_getElem? hb), ha]
    simp

namespace Filled

theorem used_of_lt (h : Filled used k l) (ha : l[i]? = some a) (hi : i < k) : used a = true :=
  (h.used_iff i a ha).mpr hi

theorem lt_of_used (h : Filled used k l) (ha : l[i]? = some a) (hu : used a = true) : i < k :=
  (h.used_iff i a ha).mp hu

/-- The next slot to be given out is the one behind those in use, if there is one. -/
theorem firstFree (h : Filled used k l) :
    Slots.firstFree used l = if k < l.length then some k else none := by
  split
  · rename_i hk
    have hget := List.getElem?_eq_getElem hk
    refine firstFree_eq_some_iff.mpr ⟨⟨l[k], hget, ?_⟩, fun j hj a ha ↦ h.used_of_lt ha hj⟩
    rw [← Bool.not_eq_true, h.used_iff k _ hget]
    exact Nat.lt_irrefl k
  · rename_i hk
    refine firstFree_eq_none_iff.mpr fun a ha ↦ ?_
    obtain ⟨i, hi, rfl⟩ := List.getElem_of_mem ha
    exact h.used_of_lt (List.getElem?_eq_getElem hi) (Nat.lt_of_lt_of_le hi (Nat.le_of_not_lt hk))

/-- The next slot to be given out is there if some slot is free. -/
theorem lt_of_free (h : Filled used k l) (ha : a ∈ l) (hfree : used a = false) : k < l.length := by
  obtain ⟨i, hi, rfl⟩ := List.getElem_of_mem ha
  refine Nat.lt_of_le_of_lt (Nat.le_of_not_lt fun hlt ↦ ?_) hi
  rw [h.used_of_lt (List.getElem?_eq_getElem hi) hlt] at hfree
  cases hfree

/-- Giving it out leaves the slots in use in order. -/
theorem set (h : Filled used k l) (hk : k < l.length) (ha : used a = true) :
    Filled used (k + 1) (l.set k a) where
  le := by rwa [List.length_set]
  used_iff i b hb := by
    rw [List.getElem?_set, if_pos hk] at hb
    split at hb
    · rename_i hki
      rw [Option.some.injEq] at hb
      rw [← hb, ← hki, ha]
      simp
    · rename_i hki
      rw [h.used_iff i b hb]
      omega

end Filled
end Slots
