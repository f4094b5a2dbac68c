import Mathlib.Logic.Function.Basic
import Mathlib.Data.List.Basic

/-!
# The history of a keyed store

A store maps keys to values, and is changed by putting a value under a key and by dropping a key.
What it holds after a history is decided key by key by the last act about that key: `after_at`
computes it, and `after_eq_some_iff` and `after_eq_none_iff` say it in words.
-/

set_option autoImplicit false

namespace KeyedStore

/-- A change of a store. -/
inductive Act (κ α : Type*)
  /-- Put a value under a key. -/
  | put (k : κ) (v : α)
  /-- Drop what is under a key. -/
  | drop (k : κ)

variable {κ α : Type*}

namespace Act

/-- The key an act is about. -/
def key : Act κ α → κ
  | put k _ => k
  | drop k => k

/-- What an act leaves under its key. -/
def value : Act κ α → Option α
  | put _ v => some v
  | drop _ => none

@[simp] theorem key_put (k : κ) (v : α) : (put k v).key = k := rfl
@[simp] theorem key_drop (k : κ) : (drop k : Act κ α).key = k := rfl
@[simp] theorem value_put (k : κ) (v : α) : (put k v).value = some v := rfl
@[simp] theorem value_drop (k : κ) : (drop k : Act κ α).value = none := rfl

end Act

/-- In this history the last act about a key is this one. -/
def LastAbout (k : κ) (acts : List (Act κ α)) (a : Act κ α) : Prop :=
  a.key = k ∧ ∃ front back, acts = front ++ a :: back ∧ ∀ b ∈ back, b.key ≠ k

/-- No act of this history is about a key. -/
def Untouched (k : κ) (acts : List (Act κ α)) : Prop := ∀ a ∈ acts, a.key ≠ k

theorem untouched_or_exists_lastAbout (k : κ) (acts : List (Act κ α)) :
    Untouched k acts ∨ ∃ a, LastAbout k acts a := by
  induction acts with
  | nil => exact .inl fun a ha ↦ by cases ha
  | cons a acts ih =>
    rcases ih with hun | ⟨b, hkey, front, back, rfl, hback⟩
    · by_cases ha : a.key = k
      · exact .inr ⟨a, ha, [], acts, rfl, hun⟩
      · exact .inl (List.forall_mem_cons.mpr ⟨ha, hun⟩)
    · exact .inr ⟨b, hkey, a :: front, back, rfl, hback⟩

variable [DecidableEq κ]

/-- An act carried out. -/
def apply (s : κ → Option α) (a : Act κ α) : κ → Option α := Function.update s a.key a.value

/-- A history carried out. -/
def after (s : κ → Option α) (acts : List (Act κ α)) : κ → Option α := acts.foldl apply s

@[simp] theorem after_nil (s : κ → Option α) : after s [] = s := rfl

@[simp] theorem after_cons (s : κ → Option α) (a : Act κ α) (acts : List (Act κ α)) :
    after s (a :: acts) = after (apply s a) acts := rfl

theorem after_append (s : κ → Option α) (acts acts' : List (Act κ α)) :
    after s (acts ++ acts') = after (after s acts) acts' := List.foldl_append

theorem apply_self (s : κ → Option α) (a : Act κ α) : apply s a a.key = a.value :=
  Function.update_self ..

theorem apply_of_ne (s : κ → Option α) {a : Act κ α} {k : κ} (h : a.key ≠ k) : apply s a k = s k :=
  Function.update_of_ne h.symm ..

/-- A key no act is about keeps its value. -/
theorem Untouched.after {k : κ} {acts : List (Act κ α)} (h : Untouched k acts) (s : κ → Option α) :
    after s acts k = s k := by
  induction acts generalizing s with
  | nil => rfl
  | cons a acts ih =>
    rw [after_cons, ih fun b hb ↦ h b (List.mem_cons_of_mem _ hb),
      apply_of_ne s (h a List.mem_cons_self)]

/-- **The last act about a key decides.** -/
theorem LastAbout.after {k : κ} {acts : List (Act κ α)} {a : Act κ α} (h : LastAbout k acts a)
    (s : κ → Option α) : after s acts k = a.value := by
  obtain ⟨rfl, front, back, rfl, hback⟩ := h
  rw [after_append, after_cons, Untouched.after hback, apply_self]

variable {s : κ → Option α} {k : κ} {acts : List (Act κ α)}

/-- A store holds what was put last, or what it held before. -/
theorem after_eq_some_iff {v : α} :
    after s acts k = some v ↔ LastAbout k acts (.put k v) ∨ Untouched k acts ∧ s k = some v := by
  constructor
  · intro h
    rcases untouched_or_exists_lastAbout k acts with hun | ⟨a, ha⟩
    · exact .inr ⟨hun, by rwa [hun.after] at h⟩
    · rw [ha.after] at h
      cases a with
      | put k' w =>
        obtain rfl : w = v := Option.some_inj.mp h
        obtain rfl : k' = k := ha.1
        exact .inl ha
      | drop => cases h
  · rintro (h | ⟨hun, h⟩)
    · exact h.after s
    · rw [hun.after, h]

/-- A store holds nothing under a key that was dropped last, or never put. -/
theorem after_eq_none_iff :
    after s acts k = none ↔ LastAbout k acts (.drop k) ∨ Untouched k acts ∧ s k = none := by
  constructor
  · intro h
    rcases untouched_or_exists_lastAbout k acts with hun | ⟨a, ha⟩
    · exact .inr ⟨hun, by rwa [hun.after] at h⟩
    · rw [ha.after] at h
      cases a with
      | put => cases h
      | drop k' =>
        obtain rfl : k' = k := ha.1
        exact .inl ha
  · rintro (h | ⟨hun, h⟩)
    · exact h.after s
    · rw [hun.after, h]

end KeyedStore
