/- Unit: Mptsd/Lib/RoundRobin
   digest: How often a pointer that goes round a ring visits each of its places. -/

import Mathlib.Data.Int.CardIntervalMod
import Mathlib.Tactic

set_option autoImplicit false
set_option relaxedAutoImplicit false

namespace Mptsd.Lib.RoundRobin

/-- The visits to place `i` among the first `k` of a pointer that goes round `n` places from
`start` on. -/
def visits (n start i k : ℕ) : ℕ := Nat.count (fun t => (start + t) % n = i) k

variable {n start i j : ℕ}

@[simp] theorem visits_zero : visits n start i 0 = 0 := Nat.count_zero _

theorem visits_succ (k : ℕ) :
    visits n start i (k + 1) = visits n start i k + if (start + k) % n = i then 1 else 0 := by
  unfold visits
  rw [Nat.count_succ]

private theorem exists_visits_eq (start : ℕ) (inside : i < n) (k : ℕ) :
    ∃ extra ≤ 1, visits n start i k = k / n + extra := by
  have positive : 0 < n := by omega
  have below := Nat.mod_lt start positive
  have turned : (start + (i + (n - start % n))) % n = i := by
    have whole : (start % n + (n - start % n)) % n = 0 := by
      rw [Nat.add_sub_cancel' below.le, Nat.mod_self]
    rw [show start + (i + (n - start % n)) = i + (start + (n - start % n)) by omega, Nat.add_mod,
      ← Nat.mod_add_mod start, whole, Nat.add_zero, Nat.mod_mod, Nat.mod_eq_of_lt inside]
  have shifted : ∀ t, (start + t) % n = i ↔ t ≡ i + (n - start % n) [MOD n] := by
    intro t
    have here : (start + t) % n = i ↔ start + t ≡ start + (i + (n - start % n)) [MOD n] := by
      rw [Nat.ModEq, turned]
    rw [here]
    exact ⟨Nat.ModEq.add_left_cancel' start, Nat.ModEq.add_left start⟩
  have count := Nat.count_modEq_card k positive (i + (n - start % n))
  refine ⟨if (i + (n - start % n)) % n < k % n then 1 else 0, by split <;> omega, ?_⟩
  rw [← count, visits]
  congr 1
  ext t
  exact shifted t

/-- No place is ever two visits ahead of another. -/
theorem visits_le_succ (start : ℕ) (hi : i < n) (hj : j < n) (k : ℕ) :
    visits n start i k ≤ visits n start j k + 1 := by
  obtain ⟨extra, small, here⟩ := exists_visits_eq start hi k
  obtain ⟨extra', -, there⟩ := exists_visits_eq start hj k
  omega

theorem visits_pos (start : ℕ) (inside : i < n) {k : ℕ} (round : n ≤ k) :
    0 < visits n start i k := by
  obtain ⟨extra, -, here⟩ := exists_visits_eq start inside k
  have : 0 < k / n := Nat.div_pos round (by omega)
  omega

end Mptsd.Lib.RoundRobin
