import Mathlib.Data.Finset.Basic
import Mathlib.Logic.Function.Basic

/-!
# Who holds which resource

Owners hold at most one resource each, and a resource that is live should have an owner.

## What is here

* `Exclusive` says that no two owners hold the same resource.
* `Accounted holds live lost` says that the books are right: no two owners hold the same resource,
  what is held is live, and what is live is either held or written off as lost.
* There is one lemma for each way the books can change: a new resource is acquired (`acquire`) or
  lost (`lose`), one is given back (`release`), one changes hands (`transfer`), and an owner without
  a resource appears or disappears (`update_none`).
-/

set_option autoImplicit false

namespace Handles

variable {ω δ : Type*}

/-- No two owners hold the same resource. -/
def Exclusive (holds : ω → Option δ) : Prop :=
  ∀ ⦃a b : ω⦄ ⦃d : δ⦄, holds a = some d → holds b = some d → a = b

/-- Every live resource is held by one owner, or is lost. -/
structure Accounted (holds : ω → Option δ) (live lost : Finset δ) : Prop where
  /-- Nobody holds what somebody else holds. -/
  exclusive : Exclusive holds
  /-- What is held is live. -/
  held : ∀ ⦃a d⦄, holds a = some d → d ∈ live
  /-- What is held is not lost. -/
  kept : ∀ ⦃a d⦄, holds a = some d → d ∉ lost
  /-- What is lost is live. -/
  lost_subset : lost ⊆ live
  /-- What is live is held or lost. -/
  covered : ∀ d ∈ live, d ∉ lost → ∃ a, holds a = some d

namespace Accounted

variable {holds : ω → Option δ} {live lost : Finset δ} {a b : ω} {d : δ}

/-- At the start there is nothing to account for. -/
theorem empty : Accounted (fun _ : ω ↦ (none : Option δ)) ∅ ∅ where
  exclusive _ _ _ h := by cases h
  held _ _ h := by cases h
  kept _ _ h := by cases h
  lost_subset := Finset.Subset.refl _
  covered d hd := absurd hd (Finset.notMem_empty d)

variable [DecidableEq ω]

/-- An owner that holds nothing can disappear, or appear. -/
theorem update_none (h : Accounted holds live lost) (ha : holds a = none) :
    Accounted (Function.update holds a none) live lost := by
  rwa [Function.update_eq_self_iff.mpr ha.symm]

variable [DecidableEq δ]

/-- An owner acquires a new resource. -/
theorem acquire (h : Accounted holds live lost) (ha : holds a = none) (hd : d ∉ live) :
    Accounted (Function.update holds a (some d)) (insert d live) lost where
  exclusive x y e hx hy := by
    by_cases hxa : x = a <;> by_cases hya : y = a
    · rw [hxa, hya]
    · subst hxa
      rw [Function.update_self] at hx
      rw [Function.update_of_ne hya] at hy
      exact absurd (h.held hy) (Option.some_inj.mp hx ▸ hd)
    · subst hya
      rw [Function.update_self] at hy
      rw [Function.update_of_ne hxa] at hx
      exact absurd (h.held hx) (Option.some_inj.mp hy ▸ hd)
    · rw [Function.update_of_ne hxa] at hx
      rw [Function.update_of_ne hya] at hy
      exact h.exclusive hx hy
  held x e hx := by
    by_cases hxa : x = a
    · subst hxa
      rw [Function.update_self, Option.some_inj] at hx
      exact hx ▸ Finset.mem_insert_self ..
    · rw [Function.update_of_ne hxa] at hx
      exact Finset.mem_insert_of_mem (h.held hx)
  kept x e hx := by
    by_cases hxa : x = a
    · subst hxa
      rw [Function.update_self, Option.some_inj] at hx
      exact hx ▸ fun hlost ↦ hd (h.lost_subset hlost)
    · rw [Function.update_of_ne hxa] at hx
      exact h.kept hx
  lost_subset := h.lost_subset.trans (Finset.subset_insert ..)
  covered e he hlost := by
    rcases Finset.mem_insert.mp he with rfl | he
    · exact ⟨a, Function.update_self ..⟩
    · obtain ⟨x, hx⟩ := h.covered e he hlost
      have hxa : x ≠ a := by
        rintro rfl
        rw [ha] at hx
        cases hx
      exact ⟨x, by rw [Function.update_of_ne hxa, hx]⟩

omit [DecidableEq ω] in
/-- A new resource that nobody gets is lost. -/
theorem lose (h : Accounted holds live lost) (hd : d ∉ live) :
    Accounted holds (insert d live) (insert d lost) where
  exclusive := h.exclusive
  held _ _ hx := Finset.mem_insert_of_mem (h.held hx)
  kept x e hx := by
    rw [Finset.mem_insert, not_or]
    exact ⟨fun he ↦ hd (he ▸ h.held hx), h.kept hx⟩
  lost_subset := Finset.insert_subset_insert _ h.lost_subset
  covered e he hlost := by
    rw [Finset.mem_insert, not_or] at hlost
    exact h.covered e ((Finset.mem_insert.mp he).resolve_left hlost.1) hlost.2

/-- An owner gives its resource back. -/
theorem release (h : Accounted holds live lost) (ha : holds a = some d) :
    Accounted (Function.update holds a none) (live.erase d) lost where
  exclusive x y e hx hy := by
    by_cases hxa : x = a
    · subst hxa
      rw [Function.update_self] at hx
      cases hx
    by_cases hya : y = a
    · subst hya
      rw [Function.update_self] at hy
      cases hy
    rw [Function.update_of_ne hxa] at hx
    rw [Function.update_of_ne hya] at hy
    exact h.exclusive hx hy
  held x e hx := by
    by_cases hxa : x = a
    · subst hxa
      rw [Function.update_self] at hx
      cases hx
    rw [Function.update_of_ne hxa] at hx
    exact Finset.mem_erase.mpr ⟨fun he ↦ hxa (h.exclusive (he ▸ hx) ha), h.held hx⟩
  kept x e hx := by
    by_cases hxa : x = a
    · subst hxa
      rw [Function.update_self] at hx
      cases hx
    rw [Function.update_of_ne hxa] at hx
    exact h.kept hx
  lost_subset e he := Finset.mem_erase.mpr ⟨fun hed ↦ h.kept ha (hed ▸ he), h.lost_subset he⟩
  covered e he hlost := by
    obtain ⟨hne, he⟩ := Finset.mem_erase.mp he
    obtain ⟨x, hx⟩ := h.covered e he hlost
    refine ⟨x, ?_⟩
    rw [Function.update_of_ne fun hxa ↦ hne ?_, hx]
    rw [hxa, ha] at hx
    exact (Option.some_inj.mp hx).symm

omit [DecidableEq δ] in
/-- A resource changes hands. -/
theorem transfer (h : Accounted holds live lost) (ha : holds a = none) (hab : a ≠ b) :
    Accounted (Function.update (Function.update holds a (holds b)) b none) live lost := by
  -- whoever holds something now held it before, but for `a`, who has it from `b`
  have hold : ∀ {x e}, Function.update (Function.update holds a (holds b)) b none x = some e →
      x ≠ b ∧ if x = a then holds b = some e else holds x = some e := by
    intro x e hx
    by_cases hxb : x = b
    · subst hxb
      rw [Function.update_self] at hx
      cases hx
    rw [Function.update_of_ne hxb] at hx
    refine ⟨hxb, ?_⟩
    split
    · rename_i hxa
      rwa [hxa, Function.update_self] at hx
    · rename_i hxa
      rwa [Function.update_of_ne hxa] at hx
  refine ⟨fun x y e hx hy ↦ ?_, fun x e hx ↦ ?_, fun x e hx ↦ ?_, h.lost_subset,
    fun e he hlost ↦ ?_⟩
  · obtain ⟨hxb, hx⟩ := hold hx
    obtain ⟨hyb, hy⟩ := hold hy
    split at hx <;> split at hy
    · rename_i hxa hya
      rw [hxa, hya]
    · exact absurd (h.exclusive hy hx) hyb
    · exact absurd (h.exclusive hx hy) hxb
    · exact h.exclusive hx hy
  · obtain ⟨-, hx⟩ := hold hx
    split at hx <;> exact h.held hx
  · obtain ⟨-, hx⟩ := hold hx
    split at hx <;> exact h.kept hx
  · obtain ⟨x, hx⟩ := h.covered e he hlost
    by_cases hxb : x = b
    · exact ⟨a, by rw [Function.update_of_ne hab, Function.update_self, ← hxb, hx]⟩
    · refine ⟨x, ?_⟩
      rw [Function.update_of_ne hxb, Function.update_of_ne fun hxa ↦ ?_, hx]
      rw [hxa, ha] at hx
      cases hx

end Accounted
end Handles
