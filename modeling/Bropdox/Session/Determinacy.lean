import Mathlib.Logic.Relation
import Mathlib.Order.RelClasses

/-!
# Runs that all end in the same state

Two processes that only meet through FIFO channels have one property that pays for everything:
when both can move, the two moves commute.  Stated for an arbitrary relation this is `Diamond`, and
the consequence is that the scheduler cannot matter.  If *one* run from `x` ends in a state with no
successor, then no run from `x` is infinite, and every run from `x` can be continued to that same
state.  So a statement about all schedules is proved by following a single one.
-/

set_option autoImplicit false

namespace Session

variable {S : Type} {r : S → S → Prop}

open Relation (ReflTransGen)

/-- Two different moves from the same state can be joined by one move each. -/
def Diamond (r : S → S → Prop) : Prop :=
  ∀ x y z, r x y → r x z → y = z ∨ ∃ w, r y w ∧ r z w

/-- No move is possible. -/
def Terminal (r : S → S → Prop) (t : S) : Prop := ∀ y, ¬ r t y

/-- Some run from `x` ends in `t`. -/
def Ends (r : S → S → Prop) (x t : S) : Prop := ReflTransGen r x t ∧ Terminal r t

/-- Every run from `x` is finite and can be continued to `t`, where nothing can move. -/
structure Settles (r : S → S → Prop) (x t : S) : Prop where
  /-- Nothing can move in `t`. -/
  terminal : Terminal r t
  /-- Wherever a run from `x` has got to, it can be continued to `t`. -/
  every : ∀ y, ReflTransGen r x y → ReflTransGen r y t
  /-- No run from `x` goes on for ever. -/
  finite : Acc (fun y z ↦ r z y) x

/-- `Path r n x y`: `y` is `n` moves away from `x`. -/
inductive Path (r : S → S → Prop) : Nat → S → S → Prop
  | nil (x : S) : Path r 0 x x
  | cons {n : Nat} {x y z : S} (h : r x y) (p : Path r n y z) : Path r (n + 1) x z

theorem exists_path {x y : S} (h : ReflTransGen r x y) : ∃ n, Path r n x y := by
  induction h using ReflTransGen.head_induction_on with
  | refl => exact ⟨0, .nil _⟩
  | head hstep _ ih =>
    obtain ⟨n, p⟩ := ih
    exact ⟨n + 1, .cons hstep p⟩

theorem Path.reaches {n : Nat} {x y : S} (p : Path r n x y) : ReflTransGen r x y := by
  induction p with
  | nil => exact .refl
  | cons h _ ih => exact .head h ih

/-- One move uses up exactly one move of any path to a terminal state. -/
theorem Path.step_of_diamond (hr : Diamond r) {n : Nat} {x y t : S} (p : Path r n x t)
    (ht : Terminal r t) (h : r x y) : ∃ m, n = m + 1 ∧ Path r m y t := by
  induction p generalizing y with
  | nil => exact absurd h (ht y)
  | @cons n x z t hz p ih =>
    rcases hr x y z h hz with rfl | ⟨w, hyw, hzw⟩
    · exact ⟨n, rfl, p⟩
    · obtain ⟨m, rfl, q⟩ := ih ht hzw
      exact ⟨m + 1, rfl, .cons hyw q⟩

theorem Path.every (hr : Diamond r) {n : Nat} {x y t : S} (p : Path r n x t) (ht : Terminal r t)
    (h : ReflTransGen r x y) : ∃ m, Path r m y t := by
  induction h with
  | refl => exact ⟨n, p⟩
  | tail _ hstep ih =>
    obtain ⟨m, q⟩ := ih
    obtain ⟨k, -, q'⟩ := q.step_of_diamond hr ht hstep
    exact ⟨k, q'⟩

theorem Path.acc (hr : Diamond r) {n : Nat} {x t : S} (p : Path r n x t) (ht : Terminal r t) :
    Acc (fun y z ↦ r z y) x := by
  induction n generalizing x with
  | zero =>
    refine ⟨x, fun y hy ↦ ?_⟩
    obtain ⟨m, hm, -⟩ := p.step_of_diamond hr ht hy
    omega
  | succ n ih =>
    refine ⟨x, fun y hy ↦ ?_⟩
    obtain ⟨m, hm, q⟩ := p.step_of_diamond hr ht hy
    obtain rfl : m = n := by omega
    exact ih q

/-- **The schedule does not matter**: where one run ends, all of them do. -/
theorem Ends.settles (hr : Diamond r) {x t : S} (h : Ends r x t) : Settles r x t := by
  obtain ⟨n, p⟩ := exists_path h.1
  refine ⟨h.2, fun y hy ↦ ?_, p.acc hr h.2⟩
  obtain ⟨m, q⟩ := p.every hr h.2 hy
  exact q.reaches

theorem Settles.ends {x t : S} (h : Settles r x t) : Ends r x t := ⟨h.every x .refl, h.terminal⟩

theorem Terminal.eq_of_reaches {t y : S} (ht : Terminal r t) (h : ReflTransGen r t y) : y = t := by
  rcases h.cases_head with rfl | ⟨z, hz, -⟩
  · rfl
  · exact absurd hz (ht z)

theorem Settles.unique {x t t' : S} (h : Settles r x t) (h' : Ends r x t') : t' = t :=
  (h'.2.eq_of_reaches (h.every t' h'.1)).symm

/-- Following a move does not change where the runs end. -/
theorem ends_iff_of_step (hr : Diamond r) {x y t : S} (h : r x y) : Ends r x t ↔ Ends r y t := by
  constructor
  · intro hx
    exact ⟨(hx.settles hr).every y (.single h), hx.2⟩
  · intro hy
    exact ⟨.head h hy.1, hy.2⟩

/-- A terminal state is the end of its own runs. -/
theorem ends_iff_of_terminal {x t : S} (h : Terminal r x) : Ends r x t ↔ t = x := by
  constructor
  · exact fun hx ↦ h.eq_of_reaches hx.1
  · rintro rfl
    exact ⟨.refl, h⟩

end Session
