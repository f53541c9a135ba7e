/- Unit: Mptsd/Lib/Fields
   digest: Words put together from fields by masks, shifts and disjunctions, and their fields. -/

import Mathlib.Data.Int.ModEq
import Mathlib.Tactic

set_option autoImplicit false
set_option relaxedAutoImplicit false

namespace Mptsd.Lib.Fields

variable {w : ℕ}

theorem and_not_or_and_not (x a b : BitVec w) :
    x &&& ~~~a ||| x &&& ~~~b = x &&& ~~~(a &&& b) := by
  rw [← BitVec.and_or_distrib_left, ← BitVec.not_and]

theorem and_not_or_and_not_of_disjoint (x : BitVec w) {a b : BitVec w} (disjoint : a &&& b = 0#w) :
    x &&& ~~~a ||| x &&& ~~~b = x := by
  rw [and_not_or_and_not, disjoint]
  ext k inside
  simp

/-- The bits of the second word are among those of the first. -/
def Within (y x : BitVec w) : Prop := y ||| x = x

instance (y x : BitVec w) : Decidable (Within y x) := inferInstanceAs (Decidable (_ = _))

theorem zero_within (x : BitVec w) : Within 0#w x := by
  ext k inside
  simp

theorem extractLsb'_shiftLeft (x : BitVec w) {s len : ℕ} (room : s + len ≤ w) :
    (x <<< s).extractLsb' s len = x.setWidth len := by
  ext k inside
  have below : s + k < w := by omega
  have own : k < w := by omega
  simp [below, BitVec.getLsbD_eq_getElem own]

theorem extractLsb'_shiftLeft_below (x : BitVec w) {s start len : ℕ} (below : start + len ≤ s) :
    (x <<< s).extractLsb' start len = BitVec.ofNat len 0 := by
  ext k inside
  have before : start + k < s := by omega
  simp [before]

theorem toNat_setWidth_ofInt {len : ℕ} (le : len ≤ w) (x : ℤ) :
    (((BitVec.ofInt w x).setWidth len).toNat : ℤ) = x % 2 ^ len := by
  have divides : (2 : ℤ) ^ len ∣ 2 ^ w := pow_dvd_pow 2 le
  have nonneg : 0 ≤ x % 2 ^ w := Int.emod_nonneg x (by positivity)
  rw [BitVec.toNat_setWidth, BitVec.toNat_ofInt]
  push_cast
  rw [Int.toNat_of_nonneg nonneg]
  exact Int.emod_emod_of_dvd x divides

end Mptsd.Lib.Fields
