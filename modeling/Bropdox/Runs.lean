/-!
# Runs of a labelled step function

A system whose moves are given by a partial function on states: the label says who moves and how the
moves that are not determined come out, and there is no next state where the move is not possible.

`Along` says something of every move of a run, `Always` of every state it comes to.  An invariant
that the moves in question preserve turns one into the other (`always_of_along`), and where a move
that is not as it should be shows at once, they are the same (`always_iff_along`).
-/

set_option autoImplicit false

namespace Runs

variable {σ μ : Type} (step : σ → μ → Option σ)

/-- Every move that is made is made in a state where it is allowed. -/
def Along (ok : σ → μ → Prop) : List μ → σ → Prop
  | [], _ => True
  | m :: ms, s => ∀ s', step s m = some s' → ok s m ∧ Along ok ms s'

/-- Every state is as it should be. -/
def Always (P : σ → Prop) : List μ → σ → Prop
  | [], s => P s
  | m :: ms, s => P s ∧ ∀ s', step s m = some s' → Always P ms s'

/-- The state after some moves. -/
def after : List μ → σ → Option σ
  | [], s => some s
  | m :: ms, s => (step s m).bind (after ms)

variable {step} {ok : σ → μ → Prop} {P I : σ → Prop}

/-- Whether the moves of a run are allowed can be found out by making them. -/
instance decidableAlong [(s : σ) → (m : μ) → Decidable (ok s m)] :
    (ms : List μ) → (s : σ) → Decidable (Along step ok ms s)
  | [], _ => .isTrue trivial
  | m :: ms, s =>
    have (s' : σ) : Decidable (Along step ok ms s') := decidableAlong ms s'
    inferInstanceAs (Decidable (∀ s' ∈ step s m, ok s m ∧ Along step ok ms s'))

theorem Along.mono {ok' : σ → μ → Prop} (h : ∀ s m, ok s m → ok' s m) {ms : List μ} {s : σ}
    (ha : Along step ok ms s) : Along step ok' ms s := by
  induction ms generalizing s with
  | nil => trivial
  | cons m ms ih =>
    intro s' hs'
    exact ⟨h s m (ha s' hs').1, ih (ha s' hs').2⟩

/-- What the allowed moves preserve holds in every state of a run of allowed moves. -/
theorem always_of_along (hP : ∀ s, I s → P s)
    (hstep : ∀ s m s', I s → ok s m → step s m = some s' → I s') (ms : List μ) {s : σ} (hs : I s)
    (h : Along step ok ms s) : Always step P ms s := by
  induction ms generalizing s with
  | nil => exact hP s hs
  | cons m ms ih =>
    refine ⟨hP s hs, fun s' hs' ↦ ?_⟩
    obtain ⟨hok, h⟩ := h s' hs'
    exact ih (hstep s m s' hs hok hs') h

/-- What every move preserves holds in every state of a run. -/
theorem always_of_step (hP : ∀ s, I s → P s) (hstep : ∀ s m s', I s → step s m = some s' → I s')
    (ms : List μ) {s : σ} (hs : I s) : Always step P ms s := by
  induction ms generalizing s with
  | nil => exact hP s hs
  | cons m ms ih => exact ⟨hP s hs, fun s' hs' ↦ ih (hstep s m s' hs hs')⟩

/-- Where a move that is not allowed shows at once, only the runs of allowed moves are as they
should be. -/
theorem always_iff_along (hP : ∀ s, I s → P s)
    (hstep : ∀ s m s', I s → ok s m → step s m = some s' → I s')
    (hbad : ∀ s m s', I s → ¬ ok s m → step s m = some s' → ¬ P s') (ms : List μ) {s : σ}
    (hs : I s) : Always step P ms s ↔ Along step ok ms s := by
  refine ⟨fun h ↦ ?_, always_of_along hP hstep ms hs⟩
  induction ms generalizing s with
  | nil => trivial
  | cons m ms ih =>
    intro s' hs'
    have h' := h.2 s' hs'
    by_cases hok : ok s m
    · exact ⟨hok, ih (hstep s m s' hs hok hs') h'⟩
    · refine absurd ?_ (hbad s m s' hs hok hs')
      cases ms with
      | nil => exact h'
      | cons _ _ => exact h'.1

/-- Two conditions on moves that agree wherever an invariant holds, and one of which keeps it, allow
the same runs. -/
theorem along_iff_along {ok' : σ → μ → Prop} (hiff : ∀ s m, I s → (ok s m ↔ ok' s m))
    (hstep : ∀ s m s', I s → ok' s m → step s m = some s' → I s') (ms : List μ) {s : σ}
    (hs : I s) : Along step ok ms s ↔ Along step ok' ms s := by
  induction ms generalizing s with
  | nil => exact .rfl
  | cons m ms ih =>
    refine forall_congr' fun s' ↦ forall_congr' fun hs' ↦ ?_
    rw [hiff s m hs]
    exact and_congr_right fun hok ↦ ih (hstep s m s' hs hok hs')

/-- Every state along a run is as it should be, so the last one is. -/
theorem Always.after {ms : List μ} {s s' : σ} (h : Always step P ms s)
    (hs : after step ms s = some s') : P s' := by
  induction ms generalizing s with
  | nil =>
    cases hs
    exact h
  | cons m ms ih =>
    obtain ⟨s₁, h₁, hs⟩ := Option.bind_eq_some_iff.mp hs
    exact ih (h.2 s₁ h₁) hs

end Runs
