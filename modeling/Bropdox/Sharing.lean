import Mathlib.Data.List.Basic
import Mathlib.Logic.Function.Basic

/-!
# Owners of a shared store

Several owners work on one store and take turns in any order; what an owner does, and how the store
is changed by it, depends on a state of its own and on the store.  A `Lone` owner has the store for
itself.

`Apart` says that the owners do not notice each other: with what the shared store is to each of them
goes a store that it could have for itself, and which the others cannot change.  One thing is shared
by all owners even so, the time that passes, and a lone owner has to be given the times that it was
its turn.  These are known only when the run is over.  So an owner is compared not with one store
but with a family of them, one for each future; and a lone owner comes to the store for a future
from the one for a future that is chosen for it.
-/

set_option autoImplicit false

namespace Sharing

variable {υ σ S ℓ Φ : Type}

/-- The owners in the middle of their work, and the store. -/
structure World (υ σ S : Type) where
  /-- The states of the owners. -/
  own : υ → σ
  /-- The store. -/
  store : S

/-- What an owner has done. -/
def part [DecidableEq υ] (u : υ) (tr : List (υ × ℓ)) : List ℓ :=
  tr.filterMap fun e ↦ if e.1 = u then some e.2 else none

section Part

variable [DecidableEq υ] (u : υ)

@[simp] theorem part_nil : part u ([] : List (υ × ℓ)) = [] := rfl

@[simp] theorem part_append (tr tr' : List (υ × ℓ)) :
    part u (tr ++ tr') = part u tr ++ part u tr' := List.filterMap_append

@[simp] theorem part_map_self (ls : List ℓ) : part u (ls.map (u, ·)) = ls := by
  simp [part, List.filterMap_map]

theorem part_map_of_ne {u v : υ} (h : v ≠ u) (ls : List ℓ) : part u (ls.map (v, ·)) = [] := by
  simp [part, List.filterMap_map, h]

end Part

/-- A run of an owner that has the store for itself, with what it has done. -/
inductive Lone (move : List ℓ → σ × S → σ × S → Prop) : σ × S → List ℓ → σ × S → Prop
  | nil (c : σ × S) : Lone move c [] c
  | snoc {c c' c'' : σ × S} {ls ls' : List ℓ} (hr : Lone move c ls c') (hm : move ls' c' c'') :
      Lone move c (ls ++ ls') c''

variable [DecidableEq υ]

/-- A run of all the owners, with what each of them has done. -/
inductive Run (move : υ → List ℓ → σ × S → σ × S → Prop) :
    World υ σ S → List (υ × ℓ) → World υ σ S → Prop
  | nil (w : World υ σ S) : Run move w [] w
  | snoc {w w' : World υ σ S} {tr : List (υ × ℓ)} {u : υ} {ls : List ℓ} {a : σ} {s : S}
      (hr : Run move w tr w') (hm : move u ls (w'.own u, w'.store) (a, s)) :
      Run move w (tr ++ ls.map (u, ·)) ⟨Function.update w'.own u a, s⟩

/-- The owners do not notice each other: `sees u s k` says that the store `s` is to `u` what the
stores `k` would be, and `fit` is what is true of an owner that has the store for itself. -/
structure Apart (move : υ → List ℓ → σ × S → σ × S → Prop) (sees : υ → S → (Φ → S) → Prop)
    (fit : υ → σ × S → Prop) : Prop where
  /-- A lone owner goes on being fit. -/
  keeps {u : υ} {ls : List ℓ} {c c' : σ × S} (hc : fit u c) (hm : move u ls c c') : fit u c'
  /-- What an owner does it would do alone. -/
  own {u : υ} {s s' : S} {k : Φ → S} {a a' : σ} {ls : List ℓ} (hs : sees u s k)
    (hfit : ∀ φ, fit u (a, k φ)) (hm : move u ls (a, s) (a', s')) :
    ∃ (k' : Φ → S) (g : Φ → Φ), sees u s' k' ∧ ∀ φ, move u ls (a, k (g φ)) (a', k' φ)
  /-- What another owner does an owner does not see. -/
  others {u v : υ} {s s' : S} {k l : Φ → S} {a a' : σ} {ls : List ℓ} (hne : v ≠ u)
    (hs : sees u s k) (hl : sees v s l) (hfit : ∀ φ, fit v (a, l φ))
    (hm : move v ls (a, s) (a', s')) : sees u s' k

variable {move : υ → List ℓ → σ × S → σ × S → Prop} {sees : υ → S → (Φ → S) → Prop}
  {fit : υ → σ × S → Prop} {w w' : World υ σ S} {tr : List (υ × ℓ)}

omit [DecidableEq υ] in
/-- A lone owner stays fit. -/
theorem Lone.keeps {u : υ} (hA : Apart move sees fit) {c c' : σ × S} {ls : List ℓ}
    (hr : Lone (move u) c ls c') (hc : fit u c) : fit u c' := by
  induction hr with
  | nil => exact hc
  | snoc _ hm ih => exact hA.keeps ih hm

/-- **Every owner's part of a run is a run of that owner alone.** -/
theorem Apart.lone (hA : Apart move sees fit) {k : υ → Φ → S}
    (hs : ∀ u, sees u w.store (k u)) (hfit : ∀ u φ, fit u (w.own u, k u φ))
    (hr : Run move w tr w') (u : υ) : ∃ (k' : Φ → S) (g : Φ → Φ), sees u w'.store k' ∧
      ∀ φ, Lone (move u) (w.own u, k u (g φ)) (part u tr) (w'.own u, k' φ) := by
  induction hr generalizing u with
  | nil => exact ⟨k u, id, hs u, fun φ ↦ .nil _⟩
  | @snoc w' tr v ls a s hr hm ih =>
    obtain ⟨k', g, hs', hlone⟩ := ih u
    by_cases hv : v = u
    · subst hv
      obtain ⟨k'', g', hs'', hmove⟩ := hA.own hs' (fun φ ↦ (hlone φ).keeps hA (hfit v (g φ))) hm
      refine ⟨k'', g ∘ g', hs'', fun φ ↦ ?_⟩
      simpa using (hlone (g' φ)).snoc (hmove φ)
    · obtain ⟨l, g', hl, hlonev⟩ := ih v
      have hs'' := hA.others hv hs' hl (fun φ ↦ (hlonev φ).keeps hA (hfit v (g' φ))) hm
      refine ⟨k', g, hs'', fun φ ↦ ?_⟩
      simpa [part_map_of_ne hv, Function.update_of_ne (Ne.symm hv)] using hlone φ

/-- Runs can be put together. -/
theorem Run.append {w'' : World υ σ S} {tr' : List (υ × ℓ)} (hr : Run move w tr w')
    (hr' : Run move w' tr' w'') : Run move w (tr ++ tr') w'' := by
  induction hr' with
  | nil => rwa [List.append_nil]
  | snoc _ hm ih =>
    rw [← List.append_assoc]
    exact ih.snoc hm

/-- An owner goes on alone while the others do nothing. -/
theorem Run.of_lone {u : υ} {c : σ × S} {ls : List ℓ}
    (hr : Lone (move u) (w.own u, w.store) ls c) :
    Run move w (ls.map (u, ·)) ⟨Function.update w.own u c.1, c.2⟩ := by
  generalize hc : (w.own u, w.store) = c₀ at hr
  induction hr with
  | nil =>
    subst hc
    rw [Function.update_eq_self]
    exact .nil w
  | @snoc c' c'' ls ls' _ hm ih =>
    have hown : move u ls' (Function.update w.own u c'.1 u, c'.2) (c''.1, c''.2) := by
      rwa [Function.update_self]
    simpa using ih.snoc hown

end Sharing
