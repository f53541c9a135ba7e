/- Unit: Mptsd/Lib/Floating
   digest: Roundings of the results of an arithmetic to a binary format: what all of them keep, and
   the one to the nearest number, the even one of two. -/

import Mathlib.Data.Int.Log
import Mathlib.Data.Rat.Floor
import Mathlib.Tactic

set_option autoImplicit false
set_option relaxedAutoImplicit false

namespace Mptsd.Lib.Floating

/-- A rounding of numbers that are not negative to a format with significands of `precision` bits.
It keeps the order, and it keeps the numbers that the format has. -/
structure Rounding (precision : ℕ) where
  round : ℚ → ℚ
  monotone : MonotoneOn round (Set.Ici 0)
  keeps : ∀ m k : ℕ, m < 2 ^ precision → round (m * 2 ^ k) = m * 2 ^ k

namespace Rounding

variable {precision : ℕ}

/-- An arithmetic that rounds nothing. -/
def exact : Rounding precision where
  round := id
  monotone := monotone_id.monotoneOn _
  keeps _ _ _ := rfl

variable (r : Rounding precision) {x : ℚ}

theorem round_natCast {n : ℕ} (small : n < 2 ^ precision) : r.round n = n := by
  simpa using r.keeps n 0 small

/-- A number of the format bounds what is rounded as it bounds the number. -/
theorem le_round (m k : ℕ) (small : m < 2 ^ precision) (le : (m : ℚ) * 2 ^ k ≤ x) :
    (m : ℚ) * 2 ^ k ≤ r.round x := by
  have positive : (0 : ℚ) ≤ m * 2 ^ k := by positivity
  have below := r.monotone positive (positive.trans le) le
  rwa [r.keeps m k small] at below

theorem round_le (m k : ℕ) (small : m < 2 ^ precision) (positive : 0 ≤ x)
    (le : x ≤ (m : ℚ) * 2 ^ k) : r.round x ≤ (m : ℚ) * 2 ^ k := by
  have above := r.monotone positive (positive.trans le) le
  rwa [r.keeps m k small] at above

theorem natCast_le_round {n : ℕ} (small : n < 2 ^ precision) (le : (n : ℚ) ≤ x) :
    (n : ℚ) ≤ r.round x := by
  simpa using r.le_round n 0 small (by simpa using le)

theorem round_le_natCast {n : ℕ} (small : n < 2 ^ precision) (positive : 0 ≤ x)
    (le : x ≤ (n : ℚ)) : r.round x ≤ n := by
  simpa using r.round_le n 0 small positive (by simpa using le)

theorem round_nonneg (positive : 0 ≤ x) : 0 ≤ r.round x := by
  simpa using r.natCast_le_round (n := 0) (by positivity) (by simpa using positive)

end Rounding

/-- The nearest integer, and the even one where two of them are equally near. -/
def roundEven (x : ℚ) : ℤ :=
  if Int.fract x < 1 / 2 then ⌊x⌋
  else if 1 / 2 < Int.fract x then ⌊x⌋ + 1
  else ⌊x⌋ + ⌊x⌋ % 2

private theorem roundEven_bounds (x : ℚ) : ⌊x⌋ ≤ roundEven x ∧ roundEven x ≤ ⌊x⌋ + 1 := by
  unfold roundEven
  split_ifs <;> omega

@[simp] theorem roundEven_intCast (n : ℤ) : roundEven n = n := by
  simp [roundEven]

private theorem roundEven_mono {x y : ℚ} (le : x ≤ y) : roundEven x ≤ roundEven y := by
  have floors := Int.floor_le_floor le
  have left := roundEven_bounds x
  have right := roundEven_bounds y
  rcases floors.lt_or_eq with less | same
  · omega
  · have fracts : Int.fract x ≤ Int.fract y := by
      rw [Int.fract, Int.fract, same]
      linarith
    unfold roundEven
    rw [same]
    split_ifs <;> first | omega | (exfalso; linarith)

/-- The distance of the numbers of the format next to `x`: their exponents start at `least`. -/
def spacing (precision : ℕ) (least : ℤ) (x : ℚ) : ℚ :=
  2 ^ max (Int.log 2 x - (precision - 1)) least

section nearest

variable {precision : ℕ} {least : ℤ} {x y : ℚ}

private theorem spacing_pos : 0 < spacing precision least x := by
  unfold spacing
  positivity

def nearestEven (precision : ℕ) (least : ℤ) (x : ℚ) : ℚ :=
  roundEven (x / spacing precision least x) * spacing precision least x

private theorem nearestEven_le {n : ℤ} (le : x ≤ n * spacing precision least x) :
    nearestEven precision least x ≤ n * spacing precision least x := by
  have positive : 0 < spacing precision least x := spacing_pos
  have scaled : x / spacing precision least x ≤ (n : ℚ) := (div_le_iff₀ positive).mpr le
  have below := roundEven_mono scaled
  rw [roundEven_intCast] at below
  exact mul_le_mul_of_nonneg_right (by exact_mod_cast below) positive.le

private theorem le_nearestEven {n : ℤ} (le : n * spacing precision least x ≤ x) :
    n * spacing precision least x ≤ nearestEven precision least x := by
  have positive : 0 < spacing precision least x := spacing_pos
  have scaled : (n : ℚ) ≤ x / spacing precision least x := (le_div_iff₀ positive).mpr le
  have above := roundEven_mono scaled
  rw [roundEven_intCast] at above
  exact mul_le_mul_of_nonneg_right (by exact_mod_cast above) positive.le

private theorem nearestEven_multiple {n : ℤ} (same : x = n * spacing precision least x) :
    nearestEven precision least x = x := by
  have scaled : x / spacing precision least x = n :=
    (div_eq_iff spacing_pos.ne').mpr same
  rw [nearestEven, scaled, roundEven_intCast]
  exact same.symm

private theorem exists_multiple {e f : ℤ} (le : e ≤ f) : ∃ n : ℤ, (2 : ℚ) ^ f = n * 2 ^ e := by
  refine ⟨2 ^ (f - e).toNat, ?_⟩
  have exponent : ((f - e).toNat : ℤ) = f - e := Int.toNat_of_nonneg (by omega)
  push_cast
  rw [← zpow_natCast, exponent, ← zpow_add₀ two_ne_zero]
  congr 1
  ring

private theorem monotoneOn_nearestEven (positive : 1 ≤ precision) :
    MonotoneOn (nearestEven precision least) (Set.Ici 0) := by
  intro x xs y _ le
  rcases (show 0 ≤ x from xs).lt_or_eq with above | rfl
  · have logs := Int.log_mono_right above le (b := 2)
    rcases eq_or_ne (spacing precision least x) (spacing precision least y) with same | other
    · -- both are multiples of one spacing
      unfold nearestEven
      rw [same]
      have spaced : 0 < spacing precision least y := spacing_pos
      have scaled := roundEven_mono (div_le_div_of_nonneg_right le spaced.le)
      exact mul_le_mul_of_nonneg_right (by exact_mod_cast scaled) spaced.le
    · -- the power of two below `y` is between them
      have exponents : max (Int.log 2 x - (precision - 1)) least ≠
          max (Int.log 2 y - (precision - 1)) least := fun h => other (by rw [spacing, spacing, h])
      have bound : x ≤ 2 ^ Int.log 2 y := by
        have under := Int.lt_zpow_succ_log_self (b := 2) (by norm_num) x
        refine under.le.trans ?_
        exact zpow_le_zpow_right₀ (by norm_num) (by omega)
      have lower : (2 : ℚ) ^ Int.log 2 y ≤ y :=
        Int.zpow_log_le_self (by norm_num) (above.trans_le le)
      obtain ⟨n, up⟩ := exists_multiple (e := max (Int.log 2 x - (precision - 1)) least)
        (f := Int.log 2 y) (by omega)
      obtain ⟨m, down⟩ := exists_multiple (e := max (Int.log 2 y - (precision - 1)) least)
        (f := Int.log 2 y) (by omega)
      have first : nearestEven precision least x ≤ n * spacing precision least x :=
        nearestEven_le (by rwa [spacing, ← up])
      have second : m * spacing precision least y ≤ nearestEven precision least y :=
        le_nearestEven (by rwa [spacing, ← down])
      rw [spacing, ← up] at first
      rw [spacing, ← down] at second
      exact first.trans second
  · have zero : nearestEven precision least 0 = 0 := by simp [nearestEven, roundEven]
    rw [zero]
    have below : ((0 : ℤ) : ℚ) * spacing precision least y ≤ nearestEven precision least y :=
      le_nearestEven (by simpa using le)
    simpa using below

private theorem nearestEven_keeps (low : least ≤ 0) {m : ℕ} (k : ℕ) (small : m < 2 ^ precision) :
    nearestEven precision least (m * 2 ^ k) = m * 2 ^ k := by
  rcases Nat.eq_zero_or_pos m with rfl | positive
  · simp [nearestEven, roundEven]
  · have log : Int.log 2 ((m : ℚ) * 2 ^ k) - (precision - 1) ≤ k := by
      have above : (0 : ℚ) < m * 2 ^ k := by positivity
      have size : (m : ℚ) * 2 ^ k < (2 : ℕ) ^ ((precision : ℤ) + k) := by
        rw [zpow_add₀ (by norm_num), zpow_natCast, zpow_natCast]
        push_cast
        gcongr
        exact_mod_cast small
      have := (Int.lt_zpow_iff_log_lt (by norm_num) above).mp size
      omega
    obtain ⟨n, multiple⟩ := exists_multiple
      (e := max (Int.log 2 ((m : ℚ) * 2 ^ k) - (precision - 1)) least) (f := k) (by omega)
    have whole : (m : ℚ) * 2 ^ k = ((m * n : ℤ) : ℚ) * spacing precision least (m * 2 ^ k) := by
      rw [zpow_natCast] at multiple
      push_cast
      rw [spacing, mul_assoc, ← multiple]
    exact nearestEven_multiple whole

end nearest

/-- The numbers of type `double`: 53 bits, and the least of them is `2 ^ -1074`. -/
def binary64 : Rounding 53 where
  round := nearestEven 53 (-1074)
  monotone := monotoneOn_nearestEven (by norm_num)
  keeps _ k small := nearestEven_keeps (by norm_num) k small

end Mptsd.Lib.Floating
