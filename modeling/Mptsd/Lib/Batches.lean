/- Unit: Mptsd/Lib/Batches
   digest: Events that come in batches at least a period apart, and how many of them any window of
   time holds. -/

import Mathlib.Data.List.Basic
import Mathlib.Tactic

set_option autoImplicit false
set_option relaxedAutoImplicit false

namespace Mptsd.Lib.Batches

/-- The times of all events of some whole batches, each of which takes a period or longer. -/
structure Batched (size period start batches now : ℕ) (log : List ℕ) : Prop where
  later : start + batches * period ≤ now
  length : log.length = batches * size
  begun : ∀ n time, log[n]? = some time → start + n / size * period ≤ time
  past : ∀ n time, log[n]? = some time → time + batches * period ≤ now + (n / size + 1) * period
  apart : ∀ m n first second, m ≤ n → log[m]? = some first → log[n]? = some second →
    first + n / size * period ≤ second + (m / size + 1) * period

/-- The times of one batch of `size` events. -/
structure Batch (size begins ends : ℕ) (times : List ℕ) : Prop where
  whole : times.length = size
  later : begins ≤ ends
  sorted : times.Pairwise (· ≤ ·)
  inside : ∀ time ∈ times, begins ≤ time ∧ time ≤ ends

variable {size period start batches now : ℕ} {log : List ℕ}

theorem batched_nil : Batched size period start 0 start [] := by
  refine ⟨by simp, by simp, ?_, ?_, ?_⟩
  · rintro n time ⟨⟩
  · rintro n time ⟨⟩
  · rintro m n first second le ⟨⟩

theorem getElem?_append_cases {times : List ℕ} (length : log.length = batches * size)
    (whole : times.length = size) {n time : ℕ} (found : (log ++ times)[n]? = some time) :
    log[n]? = some time ∨ n / size = batches ∧ times[n % size]? = some time := by
  rcases lt_or_ge n log.length with inside | outside
  · left
    rwa [List.getElem?_append_left inside] at found
  · right
    rw [List.getElem?_append_right outside] at found
    obtain ⟨k, rfl⟩ := Nat.exists_eq_add_of_le outside
    rw [Nat.add_sub_cancel_left] at found
    have below : k < size := whole ▸ (List.getElem?_eq_some_iff.mp found).1
    have positive : 0 < size := by omega
    rw [length, Nat.add_comm, Nat.add_mul_div_right _ _ positive, Nat.div_eq_of_lt below,
      Nat.add_mul_mod_self_right, Nat.mod_eq_of_lt below]
    exact ⟨Nat.zero_add _, found⟩

private theorem getElem?_le_of_sorted {times : List ℕ} (sorted : times.Pairwise (· ≤ ·))
    {i j first second : ℕ} (le : i ≤ j) (here : times[i]? = some first)
    (there : times[j]? = some second) : first ≤ second := by
  obtain ⟨small, rfl⟩ := List.getElem?_eq_some_iff.mp here
  obtain ⟨large, rfl⟩ := List.getElem?_eq_some_iff.mp there
  rcases le.eq_or_lt with rfl | less
  · exact le_rfl
  · exact List.pairwise_iff_getElem.mp sorted i j small large less

/-- One batch more, that begins when the others are over. -/
theorem Batched.append (h : Batched size period start batches now log) {begins ends after : ℕ}
    {times : List ℕ} (batch : Batch size begins ends times) (begun : now ≤ begins)
    (ended : ends ≤ after) (lasts : begins + period ≤ after) :
    Batched size period start (batches + 1) after (log ++ times) := by
  have later := h.later
  have whole := batch.whole
  refine ⟨?_, ?_, ?_, ?_, ?_⟩
  · rw [Nat.succ_mul]
    omega
  · rw [List.length_append, h.length, whole, Nat.succ_mul]
  · intro n time found
    rcases getElem?_append_cases h.length whole found with earlier | ⟨last, found⟩
    · exact h.begun n time earlier
    · have := (batch.inside _ (List.mem_of_getElem? found)).1
      rw [last]
      omega
  · intro n time found
    rw [Nat.succ_mul]
    rcases getElem?_append_cases h.length whole found with earlier | ⟨last, found⟩
    · have := h.past n time earlier
      omega
    · have := (batch.inside _ (List.mem_of_getElem? found)).2
      rw [last, Nat.succ_mul]
      omega
  · intro m n first second le here there
    rcases getElem?_append_cases h.length whole there with earlier | ⟨last, there⟩
    · have inside := (List.getElem?_eq_some_iff.mp earlier).1
      rw [List.getElem?_append_left (le.trans_lt inside)] at here
      exact h.apart m n first second le here earlier
    · have := (batch.inside _ (List.mem_of_getElem? there)).1
      rw [last]
      rcases getElem?_append_cases h.length whole here with before | ⟨same, here⟩
      · have := h.past m first before
        omega
      · have order : m % size ≤ n % size := by
          have left := Nat.div_add_mod m size
          have right := Nat.div_add_mod n size
          rw [same] at left
          rw [last] at right
          omega
        have := getElem?_le_of_sorted batch.sorted order here there
        rw [same, Nat.succ_mul]
        omega

private theorem countP_le_of_places {α : Type*} {p : α → Bool} {l : List α} {low high : ℕ}
    (places : ∀ (n : ℕ) (x : α), l[n]? = some x → p x = true → low ≤ n ∧ n < high) :
    l.countP p ≤ high - low := by
  have front : (l.take low).countP p = 0 := by
    rw [List.countP_eq_zero]
    intro x member counted
    obtain ⟨n, found⟩ := List.getElem?_of_mem member
    have short := (List.getElem?_eq_some_iff.mp found).1
    rw [List.length_take] at short
    rw [List.getElem?_take_of_lt (by omega)] at found
    have := places _ _ found counted
    omega
  have back : ((l.drop low).drop (high - low)).countP p = 0 := by
    rw [List.countP_eq_zero]
    intro x member counted
    obtain ⟨n, found⟩ := List.getElem?_of_mem member
    rw [List.getElem?_drop, List.getElem?_drop] at found
    have := places _ _ found counted
    omega
  calc l.countP p = (l.take low).countP p + (((l.drop low).take (high - low)).countP p +
        ((l.drop low).drop (high - low)).countP p) := by
        rw [← List.countP_append, List.take_append_drop, ← List.countP_append,
          List.take_append_drop]
    _ ≤ high - low := by
        rw [front, back, Nat.zero_add, Nat.add_zero]
        exact List.countP_le_length.trans (List.length_take_le _ _)

theorem Batched.near (h : Batched size period start batches now log) (positive : 0 < period)
    {m n first second span : ℕ} (le : m ≤ n) (here : log[m]? = some first)
    (there : log[n]? = some second) (soon : second < first + span) :
    n / size ≤ m / size + (span / period + 1) := by
  have apart := h.apart m n first second le here there
  by_contra far
  have whole : span < period * (span / period + 1) := Nat.lt_mul_div_succ span positive
  have := Nat.mul_le_mul_right period
    (show m / size + 1 + (span / period + 1) ≤ n / size by omega)
  rw [Nat.add_mul (m / size + 1), Nat.mul_comm (span / period + 1)] at this
  omega

/-- A window of time holds the batches that fit into it, and two that are cut by its ends. -/
theorem Batched.count_le (h : Batched size period start batches now log) (positive : 0 < period)
    (since span : ℕ) :
    log.countP (fun time => decide (since ≤ time ∧ time < since + span)) ≤
      (span / period + 2) * size := by
  by_cases empty : ∃ (n time : ℕ), log[n]? = some time ∧ since ≤ time
  · classical
    obtain ⟨first, ⟨begins, here, inside⟩, earlier⟩ :
        ∃ n : ℕ, (∃ time : ℕ, log[n]? = some time ∧ since ≤ time) ∧
          ∀ m < n, ¬ ∃ time, log[m]? = some time ∧ since ≤ time :=
      ⟨Nat.find empty, Nat.find_spec empty, fun m less => Nat.find_min empty less⟩
    have low : first / size * size ≤ first := Nat.div_mul_le_self _ _
    calc _ ≤ (first / size + (span / period + 2)) * size - first / size * size := by
          refine countP_le_of_places fun n (time : ℕ) there counted => ?_
          obtain ⟨after, soon⟩ := of_decide_eq_true counted
          have order : first ≤ n := by
            by_contra before
            exact earlier n (by omega) ⟨time, there, after⟩
          have near := h.near positive order here there (show time < begins + span by omega)
          have some : 0 < size := by
            by_contra none
            have := (List.getElem?_eq_some_iff.mp there).1
            rw [h.length, Nat.eq_zero_of_not_pos none, Nat.mul_zero] at this
            omega
          refine ⟨low.trans order, ?_⟩
          rw [← Nat.div_lt_iff_lt_mul some]
          omega
      _ = (span / period + 2) * size := by
          rw [Nat.add_mul, Nat.add_sub_cancel_left]
  · have none : log.countP (fun time => decide (since ≤ time ∧ time < since + span)) = 0 := by
      rw [List.countP_eq_zero]
      intro time member counted
      obtain ⟨n, found⟩ := List.getElem?_of_mem member
      exact empty ⟨n, time, found, (of_decide_eq_true counted).1⟩
    rw [none]
    exact Nat.zero_le _

end Mptsd.Lib.Batches
