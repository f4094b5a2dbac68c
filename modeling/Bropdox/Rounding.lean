import Mathlib.Data.Nat.Log
import Mathlib.Tactic.Ring

/-!
# Rounding an integer to a significand

Converting an integer to a floating-point number with a `b`-bit significand keeps its `b` leading
bits and rounds what is cut off to nearest, ties to even.  For a natural number the result is again
a natural number, so it can be computed exactly: `roundSignificand b n`.
-/

set_option autoImplicit false

namespace Rounding

/-- The distance between neighbouring numbers with a `b`-bit significand around `n`. -/
def spacing (b n : Nat) : Nat := 2 ^ (n.log2 + 1 - b)

/-- The nearest number to `n` with a `b`-bit significand, ties to even. -/
def roundSignificand (b n : Nat) : Nat :=
  let u := spacing b n
  let q := n / u
  let r := n % u
  if 2 * r < u ∨ (2 * r = u ∧ q % 2 = 0) then q * u else (q + 1) * u

theorem spacing_pos (b n : Nat) : 0 < spacing b n := Nat.two_pow_pos _

@[simp] theorem roundSignificand_zero (b : Nat) : roundSignificand b 0 = 0 := by
  simp [roundSignificand, spacing_pos]

/-- A number that fits the significand is not rounded. -/
theorem roundSignificand_of_lt {b n : Nat} (h : n < 2 ^ b) : roundSignificand b n = n := by
  rcases Nat.eq_zero_or_pos n with rfl | hn
  · exact roundSignificand_zero b
  · have hlog : n.log2 < b := (Nat.log2_lt (by omega)).mpr h
    have hu : spacing b n = 1 := by rw [spacing, show n.log2 + 1 - b = 0 by omega, Nat.pow_zero]
    simp [roundSignificand, hu, Nat.mod_one]

/-- Whether the nearest number is the one above. -/
def RoundsUp (b n : Nat) : Prop :=
  spacing b n < 2 * (n % spacing b n) ∨
    2 * (n % spacing b n) = spacing b n ∧ n / spacing b n % 2 = 1

instance decidableRoundsUp (b n : Nat) : Decidable (RoundsUp b n) :=
  inferInstanceAs (Decidable (_ ∨ _))

theorem roundSignificand_of_roundsUp {b n : Nat} (h : RoundsUp b n) :
    roundSignificand b n = (n / spacing b n + 1) * spacing b n := by
  rw [RoundsUp] at h
  rw [roundSignificand, if_neg (by omega)]

theorem roundSignificand_of_not_roundsUp {b n : Nat} (h : ¬ RoundsUp b n) :
    roundSignificand b n = n / spacing b n * spacing b n := by
  rw [RoundsUp] at h
  rw [roundSignificand, if_pos (by omega)]

theorem lt_roundSignificand {b n : Nat} (h : RoundsUp b n) : n < roundSignificand b n := by
  rw [roundSignificand_of_roundsUp h, Nat.mul_comm]
  exact Nat.lt_mul_div_succ n (spacing_pos b n)

theorem roundSignificand_le {b n : Nat} (h : ¬ RoundsUp b n) : roundSignificand b n ≤ n := by
  rw [roundSignificand_of_not_roundsUp h]
  exact Nat.div_mul_le_self n _

/-- Rounding does not gain more than one spacing. -/
theorem roundSignificand_le_add (b n : Nat) : roundSignificand b n ≤ n + spacing b n := by
  by_cases h : RoundsUp b n
  · rw [roundSignificand_of_roundsUp h, Nat.succ_mul]
    exact Nat.add_le_add_right (Nat.div_mul_le_self n _) _
  · exact Nat.le_trans (roundSignificand_le h) (Nat.le_add_right ..)

theorem spacing_dvd_roundSignificand (b n : Nat) : spacing b n ∣ roundSignificand b n := by
  by_cases h : RoundsUp b n
  · rw [roundSignificand_of_roundsUp h]
    exact Nat.dvd_mul_left ..
  · rw [roundSignificand_of_not_roundsUp h]
    exact Nat.dvd_mul_left ..

/-! ## Between two multiples

Rounding is monotone and leaves the multiples of the spacing alone, so it does not cross one.  From
this `roundsInto_iff` decides where a result lies between two multiples by two comparisons. -/

section Between

variable {b n a c p : Nat}

/-- Rounding does not go below a multiple of the spacing. -/
theorem le_roundSignificand (hc : spacing b n ∣ c) (h : c ≤ n) : c ≤ roundSignificand b n := by
  by_cases hup : RoundsUp b n
  · exact Nat.le_of_lt (Nat.lt_of_le_of_lt h (lt_roundSignificand hup))
  · obtain ⟨k, rfl⟩ := hc
    rw [roundSignificand_of_not_roundsUp hup, Nat.mul_comm]
    exact Nat.mul_le_mul_right _ ((Nat.le_div_iff_mul_le (spacing_pos b n)).mpr
      (by rwa [Nat.mul_comm]))

/-- Rounding does not go above a multiple of the spacing. -/
theorem roundSignificand_le_of_le (hc : spacing b n ∣ c) (h : n ≤ c) :
    roundSignificand b n ≤ c := by
  by_cases hup : RoundsUp b n
  · obtain ⟨k, rfl⟩ := hc
    have hpos := spacing_pos b n
    have hlt : n < spacing b n * k := by
      refine Nat.lt_of_le_of_ne h fun he ↦ ?_
      -- a multiple of the spacing is not rounded
      have hmod : n % spacing b n = 0 := Nat.mod_eq_zero_of_dvd (Dvd.intro k he.symm)
      rw [RoundsUp, hmod] at hup
      omega
    rw [roundSignificand_of_roundsUp hup, Nat.mul_comm]
    exact Nat.mul_le_mul_left _ (Nat.div_lt_of_lt_mul hlt)
  · exact Nat.le_trans (roundSignificand_le hup) h

/-- Two multiples are at least the distance apart. -/
theorem add_le_of_dvd_of_lt {u : Nat} (ha : u ∣ a) (hc : u ∣ c) (h : a < c) : a + u ≤ c := by
  have hle := Nat.le_of_dvd (Nat.sub_pos_of_lt h) (Nat.dvd_sub hc ha)
  omega

/-- The condition for a number between `a` and `a + p` to be rounded to one behind `a` that is not
beyond `a + p`, where both are multiples of `p`. -/
def RoundsInto (b a p n : Nat) : Prop :=
  if spacing b n ≤ p then a + spacing b n ≤ n ∨ RoundsUp b n
  else spacing b n ∣ a + p ∧ (n = a + p ∨ RoundsUp b n)

instance decidableRoundsInto (b a p n : Nat) : Decidable (RoundsInto b a p n) :=
  inferInstanceAs (Decidable (if spacing b n ≤ p then _ ∨ _ else _ ∧ _))

/-- **Where a rounded number lies**: behind the multiple of a power of two below it, and not beyond
the next one. -/
theorem roundsInto_iff {k : Nat} (hp : p = 2 ^ k) (ha : p ∣ a) (hn : a ≤ n) (hn' : n ≤ a + p) :
    a < roundSignificand b n ∧ roundSignificand b n ≤ a + p ↔ RoundsInto b a p n := by
  rw [RoundsInto]
  split
  · -- both ends are multiples of the spacing, and only falling back on `a` is to be feared
    rename_i hle
    have hdvd : spacing b n ∣ p := by
      rw [hp, spacing] at hle ⊢
      exact Nat.pow_dvd_pow 2 ((Nat.pow_le_pow_iff_right (by decide)).mp hle)
    have hua := Nat.dvd_trans hdvd ha
    have hle' := roundSignificand_le_of_le (Nat.dvd_add hua hdvd) hn'
    constructor
    · rintro ⟨hlt, -⟩
      by_cases hup : RoundsUp b n
      · exact .inr hup
      · have hadd := add_le_of_dvd_of_lt hua (spacing_dvd_roundSignificand b n) hlt
        exact .inl (Nat.le_trans hadd (roundSignificand_le hup))
    · rintro (hadd | hup)
      · have hle := le_roundSignificand (Nat.dvd_add hua (Nat.dvd_refl _)) hadd
        exact ⟨Nat.lt_of_lt_of_le (Nat.lt_add_of_pos_right (spacing_pos b n)) hle, hle'⟩
      · exact ⟨Nat.lt_of_le_of_lt hn (lt_roundSignificand hup), hle'⟩
  · -- the rounded number is a multiple of `p`, and there is only one to hit
    rename_i hgt
    have hdvd : p ∣ spacing b n := by
      rw [hp, spacing] at hgt ⊢
      exact Nat.pow_dvd_pow 2 (Nat.le_of_lt
        ((Nat.pow_lt_pow_iff_right (by decide)).mp (Nat.lt_of_not_le hgt)))
    have hpr := Nat.dvd_trans hdvd (spacing_dvd_roundSignificand b n)
    constructor
    · rintro ⟨hlt, hle⟩
      have heq := Nat.le_antisymm hle (add_le_of_dvd_of_lt ha hpr hlt)
      refine ⟨heq ▸ spacing_dvd_roundSignificand b n, ?_⟩
      by_cases hup : RoundsUp b n
      · exact .inr hup
      · exact .inl (Nat.le_antisymm hn' (heq ▸ roundSignificand_le hup))
    · rintro ⟨hu, hend⟩
      refine ⟨?_, roundSignificand_le_of_le hu hn'⟩
      rcases hend with he | hup
      · have hle := le_roundSignificand hu (Nat.le_of_eq he.symm)
        have hpos : 0 < p := hp ▸ Nat.two_pow_pos k
        omega
      · exact Nat.lt_of_le_of_lt hn (lt_roundSignificand hup)

end Between

end Rounding
