/- Unit: Mptsd/Lib/Arith
   digest: Rounding half away from zero, signed 32-bit wrap-around, and exactness of a wrapped
   product divided afterwards. -/

import Mathlib.Data.Rat.Floor
import Mathlib.Tactic

set_option autoImplicit false
set_option relaxedAutoImplicit false

namespace Mptsd.Lib.Arith

/-- Rounding to the nearest integer, with halves taken away from zero. -/
def roundAway (x : ℚ) : ℤ :=
  if 0 ≤ x then ⌊x + 1 / 2⌋ else ⌈x - 1 / 2⌉

/-- A rounded value is at most half away. -/
theorem roundAway_bounds {x : ℚ} (nonneg : 0 ≤ x) :
    x - 1 / 2 < roundAway x ∧ (roundAway x : ℚ) ≤ x + 1 / 2 := by
  rw [roundAway, if_pos nonneg]
  have above := Int.lt_floor_add_one (x + 1 / 2)
  exact ⟨by linarith, Int.floor_le _⟩

theorem roundAway_mono {x y : ℚ} (nonneg : 0 ≤ x) (le : x ≤ y) : roundAway x ≤ roundAway y := by
  rw [roundAway, if_pos nonneg, roundAway, if_pos (nonneg.trans le)]
  exact Int.floor_mono (by linarith)

@[simp] theorem roundAway_natCast (n : ℕ) : roundAway n = n := by
  rw [roundAway, if_pos (Nat.cast_nonneg n), Int.floor_eq_iff]
  push_cast
  constructor <;> linarith

theorem roundAway_add_natCast {x : ℚ} (nonneg : 0 ≤ x) (n : ℕ) :
    roundAway (x + n) = roundAway x + n := by
  rw [roundAway, if_pos (by positivity), roundAway, if_pos nonneg, add_right_comm,
    Int.floor_add_natCast]

/-- The value a signed 32-bit variable holds after the unbounded result `x` is stored. -/
def wrap32 (x : ℤ) : ℤ := x.bmod (2 ^ 32)

theorem wrap32_of_range {x : ℤ} (lower : -2 ^ 31 ≤ x) (upper : x < 2 ^ 31) : wrap32 x = x := by
  rw [wrap32]
  apply Int.bmod_eq_of_le <;> norm_num <;> omega

theorem wrap32_add_left (x y : ℤ) : wrap32 (wrap32 x + y) = wrap32 (x + y) := by
  simp [wrap32]

theorem wrap32_neg {x : ℤ} (lower : 2 ^ 31 ≤ x) (upper : x < 2 ^ 32) : wrap32 x < 0 := by
  have shifted : wrap32 x = x - 2 ^ 32 := by
    have back : wrap32 (x - 2 ^ 32) = x - 2 ^ 32 :=
      wrap32_of_range (by omega) (by omega)
    rw [← back]
    simp [wrap32, Int.bmod_def]
  omega

theorem wrap32_lt (x : ℤ) : wrap32 x < 2 ^ 31 := by
  rw [wrap32]
  have := @Int.bmod_lt x (2 ^ 32) (by norm_num)
  norm_num at this ⊢
  exact this

theorem wrap32_eq_add_iff (x y : ℕ) : wrap32 x = x + y ↔ y = 0 ∧ x < 2 ^ 31 := by
  have upper := wrap32_lt x
  constructor
  · intro same
    have small : x < 2 ^ 31 := by omega
    have exact := wrap32_of_range (x := x) (by omega) (by exact_mod_cast small)
    omega
  · rintro ⟨rfl, small⟩
    rw [wrap32_of_range (by omega) (by exact_mod_cast small)]
    simp

theorem wrapped_difference {M : ℕ} (positive : 0 < M) (a b c : ℕ) :
    (b % M + M - a % M) * c % M = ((((b : ℤ) - a) * c) % M).toNat := by
  have below : a % M < M := Nat.mod_lt _ positive
  have congruent : ((b % M + M - a % M : ℕ) : ℤ) ≡ (b : ℤ) - a [ZMOD M] := by
    rw [Nat.cast_sub (by omega)]
    push_cast
    have first : (b : ℤ) % M + M ≡ b [ZMOD M] := by
      simp [Int.ModEq]
    exact first.sub (Int.mod_modEq _ _)
  have cast : (((b % M + M - a % M) * c % M : ℕ) : ℤ) = ((b : ℤ) - a) * c % M := by
    rw [Int.natCast_mod, Nat.cast_mul]
    exact congruent.mul_right c
  rw [← cast, Int.toNat_natCast]

/-- A product that is reduced modulo `M` before the division gives the unbounded quotient exactly
when it was not negative and did not reach `M`; `kept` is the `M`-bounded value it is added to. -/
theorem wrapped_quotient_iff {M b kept : ℕ} {x : ℤ} (base : 2 ≤ b) (small : 2 * b ≤ M)
    (kept_lt : kept < M) (low : -(M : ℤ) < x) :
    ((((kept + (x % M).toNat / b) % M : ℕ) : ℤ) = kept + x / b ↔
      0 ≤ x ∧ x < M ∧ kept + x / b < M) := by
  have bpos : (0 : ℤ) < b := by omega
  have Mpos : (0 : ℤ) < M := by omega
  have rest_nonneg : 0 ≤ x % M := Int.emod_nonneg x (by omega)
  have rest_lt : x % M < M := Int.emod_lt_of_pos x Mpos
  have quotient : ((x % M).toNat / b : ℕ) = ((x % M) / b : ℤ) := by
    rw [Int.natCast_div, Int.toNat_of_nonneg rest_nonneg]
  have cast : (((kept + (x % M).toNat / b) % M : ℕ) : ℤ) = (kept + (x % M) / b) % M := by
    push_cast [quotient]
    rfl
  have rest_div_nonneg : 0 ≤ (x % M) / b := Int.ediv_nonneg rest_nonneg bpos.le
  rw [cast]
  constructor
  · intro same
    have bounded : kept + x / b < M := same ▸ Int.emod_lt_of_pos _ Mpos
    have reached_nonneg : 0 ≤ (kept : ℤ) + x / b := same ▸ Int.emod_nonneg _ (by omega)
    by_cases negative : x < 0
    · -- the remainder is `x + M`; the stored sum is too far from the unbounded one
      exfalso
      have rest : x % M = x + M := by
        rw [← Int.add_emod_right, Int.emod_eq_of_lt] <;> omega
      have down : x / b < 0 := Int.ediv_neg_of_neg_of_pos negative bpos
      have up : (x + M) / b ≤ x / b + M / b + 1 := by
        have h := Int.add_mul_ediv_right x (M / b + 1) bpos.ne'
        have le : x + M ≤ x + (M / b + 1) * b := by
          have := Int.lt_ediv_add_one_mul_self (M : ℤ) bpos
          omega
        have := Int.ediv_le_ediv bpos le
        omega
      have half : 2 * ((M : ℤ) / b) ≤ M := calc
        2 * ((M : ℤ) / b) ≤ b * ((M : ℤ) / b) :=
          mul_le_mul_of_nonneg_right (by omega) (Int.ediv_nonneg Mpos.le bpos.le)
        _ ≤ M := Int.mul_ediv_self_le bpos.ne'
      rw [rest] at same
      have unwrapped : (kept + (x + M) / b : ℤ) - (kept + x / b) = (x + M) / b - x / b := by ring
      have congruent : (M : ℤ) ∣ (x + M) / b - x / b := by
        rw [← unwrapped]
        apply Int.dvd_of_emod_eq_zero
        rw [Int.sub_emod, same, Int.emod_eq_of_lt reached_nonneg bounded, sub_self,
          Int.zero_emod]
      have positive : 0 < (x + M) / b - x / b := by
        rw [rest] at rest_div_nonneg
        omega
      have := Int.le_of_dvd positive congruent
      omega
    · by_cases large : x < M
      · exact ⟨by omega, large, bounded⟩
      · exfalso
        have smaller : x % M + b ≤ x := by
          have := Int.emod_add_mul_ediv x M
          have one : 1 ≤ x / M := by
            rw [Int.le_ediv_iff_mul_le Mpos]
            omega
          have : (M : ℤ) * 1 ≤ M * (x / M) := Int.mul_le_mul_of_nonneg_left one Mpos.le
          omega
        have less : (x % M) / b + 1 ≤ x / b := by
          have h := Int.ediv_le_ediv bpos smaller
          rwa [Int.add_ediv_of_dvd_right (dvd_refl _), Int.ediv_self bpos.ne'] at h
        have le : (kept + (x % M) / b : ℤ) % M ≤ kept + (x % M) / b := by
          have whole := Int.emod_add_mul_ediv (kept + (x % M) / b : ℤ) M
          have nonneg : (0 : ℤ) ≤ M * ((kept + (x % M) / b) / M) :=
            mul_nonneg Mpos.le (Int.ediv_nonneg (by omega) Mpos.le)
          omega
        omega
  · rintro ⟨nonneg, lt, bounded⟩
    rw [Int.emod_eq_of_lt nonneg lt] at *
    exact Int.emod_eq_of_lt (by omega) bounded

end Mptsd.Lib.Arith
