/- Unit: Mptsd/Lib/Radix
   digest: Rows of digits with the most significant one first: the number of a row, and the row of
   fixed length of a number. -/

import Mathlib.Data.Nat.Digits.Lemmas
import Mathlib.Tactic

set_option autoImplicit false
set_option relaxedAutoImplicit false

namespace Mptsd.Lib.Radix

/-- The number that a row of digits stands for. -/
def value (b : ℕ) (digits : List ℕ) : ℕ := Nat.ofDigits b digits.reverse

/-- The last `k` digits of a number. -/
def places (b : ℕ) : ℕ → ℕ → List ℕ
  | 0, _ => []
  | k + 1, v => v / b ^ k % b :: places b k v

variable {b k : ℕ} {digits : List ℕ}

@[simp] theorem value_nil : value b [] = 0 := rfl

private theorem value_cons (d : ℕ) :
    value b (d :: digits) = d * b ^ digits.length + value b digits := by
  rw [value, Nat.ofDigits_reverse_cons, value, Nat.add_comm, Nat.mul_comm]

private theorem value_replicate_zero_append :
    value b (List.replicate k 0 ++ digits) = value b digits := by
  rw [value, List.reverse_append, List.reverse_replicate, Nat.ofDigits_append_replicate_zero, value]

theorem value_lt (base : 1 < b) (small : ∀ d ∈ digits, d < b) :
    value b digits < b ^ digits.length := by
  have bound := Nat.ofDigits_lt_base_pow_length base (l := digits.reverse) (by simpa using small)
  rwa [List.length_reverse] at bound

theorem foldl_eq_value (v : ℕ) :
    digits.foldl (fun v d => v * b + d) v = v * b ^ digits.length + value b digits := by
  induction digits generalizing v with
  | nil => simp
  | cons d rest ih =>
      rw [List.foldl_cons, ih, value_cons, List.length_cons, pow_succ']
      ring

@[simp] theorem length_places (v : ℕ) : (places b k v).length = k := by
  induction k with
  | zero => rfl
  | succ k ih => rw [places, List.length_cons, ih]

private theorem lt_of_mem_places (base : 0 < b) {v d : ℕ} (member : d ∈ places b k v) : d < b := by
  induction k with
  | zero => cases member
  | succ k ih =>
      rcases List.mem_cons.mp member with rfl | later
      · exact Nat.mod_lt _ base
      · exact ih later

theorem value_places (v : ℕ) : value b (places b k v) = v % b ^ k := by
  induction k with
  | zero => rw [places, value_nil, pow_zero, Nat.mod_one]
  | succ k ih =>
      rw [places, value_cons, ih, length_places, pow_succ, Nat.mod_mul]
      ring

private theorem places_value (base : 1 < b) (small : ∀ d ∈ digits, d < b) :
    places b digits.length (value b digits) = digits := by
  have same : value b (places b digits.length (value b digits)) = value b digits := by
    rw [value_places, Nat.mod_eq_of_lt (value_lt base small)]
  have reversed := Nat.ofDigits_inj_of_len_eq base (by simp)
    (by simpa using fun d => lt_of_mem_places (d := d) (by omega)) (by simpa using small) same
  exact List.reverse_injective reversed

/-- With more places than digits it is padded with zeros. -/
theorem places_value_of_le (base : 1 < b) (small : ∀ d ∈ digits, d < b) (le : digits.length ≤ k) :
    places b k (value b digits) = List.replicate (k - digits.length) 0 ++ digits := by
  have row : ∀ d ∈ List.replicate (k - digits.length) 0 ++ digits, d < b := by
    intro d member
    rcases List.mem_append.mp member with zero | own
    · rw [List.eq_of_mem_replicate zero]
      omega
    · exact small d own
  have padded := places_value base row
  rwa [List.length_append, List.length_replicate, Nat.sub_add_cancel le,
    value_replicate_zero_append] at padded

end Mptsd.Lib.Radix
